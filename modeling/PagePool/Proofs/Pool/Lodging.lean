import Mathlib.Data.List.Perm.Subperm
import PagePool.Proofs.Pool.Supply
import PagePool.Proofs.Pool.View

/-!
# Pages that come into the cache

A page that comes into a full cache drives another one out. Which one that is depends on the order
in which pages were used, and is left open here. How many places the cache has is enough to tell
that one of the pages can leave, or that none has to.
-/

namespace PagePool

open LockRecord Pool

namespace Pool

/-- Nobody is writing any page, and nobody has panicked while writing one. -/
def Readable (pool : Pool) : Prop :=
  ∀ ref, (pool.frames.frame ref).latch.refusesRead = false

/-- A page is not in the cache, and there is no room for it. -/
structure Excludes (pool : Pool) (id : PageId) : Prop where
  absent : pool.cache.peek? id = none
  full : ¬pool.MakesRoom

/-- The cache has more places than the tables can have pages. -/
def Ample (pool : Pool) : Prop :=
  ∀ pages : List PageId, pages.Nodup → (∀ id ∈ pages, (pool.table? id.table).isSome) →
    pages.length < pool.cache.capacity

/-- Pages have come into the cache, and others have left it to make room. A cache that has room for
all has kept what was there. -/
structure Lodges (before after : Pool) : Prop where
  tables_eq : after.tables = before.tables
  capacity_eq : after.cache.capacity = before.cache.capacity
  fits : before.cache.Fits → after.cache.Fits
  readable : before.Readable → after.Readable
  lasting : before.Ample → ∀ {id entry}, (before.standing id).cached = some entry →
    (after.standing id).cached = some entry

variable {pool before middle after : Pool} {id : PageId} {ref : PageRef}

/-- If a page cannot come in, more pages than any that are given are locked for writing. -/
theorem Excludes.crowded (h : pool.Excludes id) (hreadable : pool.Readable)
    (hnodup : pool.cache.pages.Nodup) {given : List PageId}
    (hplaces : given.length < pool.cache.capacity) :
    ∃ other owner, OwnedBy (pool.locks.table.records other) owner ∧ other ≠ id ∧ other ∉ given := by
  have hlong : pool.cache.capacity ≤ pool.cache.entries.length :=
    Nat.le_of_not_lt fun hroom => h.full (.inl hroom)
  obtain ⟨⟨victim, object⟩, hmem, hout⟩ : ∃ entry ∈ pool.cache.entries, entry.1 ∉ given := by
    by_contra! hall
    have hpages : pool.cache.pages ⊆ given := List.forall_mem_map.2 hall
    have hlength : pool.cache.entries.length ≤ given.length := by
      simpa only [Cache.pages, List.length_map] using (List.Nodup.subperm hnodup hpages).length_le
    exact Nat.not_lt.2 (Nat.le_trans hlong hlength) hplaces
  have hpeek := Cache.peek?_of_mem hnodup hmem
  have hpinned : pool.isPinned victim = true := by
    by_contra hfree
    exact h.full (.inr ⟨victim, object, hpeek, Bool.eq_false_iff.2 hfree, hreadable object⟩)
  obtain ⟨owner, howner⟩ := isPinned_iff.1 hpinned
  refine ⟨victim, owner, howner, fun hsame => ?_, hout⟩
  rw [hsame, h.absent] at hpeek
  cases hpeek

theorem Ample.room (h : pool.Ample) (hpool : pool.Coherent) :
    pool.cache.entries.length < pool.cache.capacity := by
  have hplaces := h pool.cache.pages hpool.nodup fun id hmem => ?_
  · rwa [Cache.pages, List.length_map] at hplaces
  obtain ⟨ref, hpeek⟩ := Option.isSome_iff_exists.1 (Cache.contains_iff.2 hmem)
  obtain ⟨bytes, hstored, _⟩ := (hpool.coherent id).resident _ _ (standing_cached hpeek)
  obtain ⟨table, htable, _⟩ := Option.bind_eq_some_iff.1 hstored
  exact Option.isSome_iff_exists.2 ⟨table, htable⟩

namespace Lodges

theorem refl (pool : Pool) : pool.Lodges pool :=
  ⟨rfl, rfl, id, id, fun _ _ _ => id⟩

theorem trans (h : before.Lodges middle) (h' : middle.Lodges after) : before.Lodges after where
  tables_eq := h'.tables_eq.trans h.tables_eq
  capacity_eq := h'.capacity_eq.trans h.capacity_eq
  fits := h'.fits ∘ h.fits
  readable := h'.readable ∘ h.readable
  lasting hample _ _ hcached := by
    refine h'.lasting (fun pages hnodup htables => ?_) (h.lasting hample hcached)
    rw [h.capacity_eq]
    simp only [table?, h.tables_eq] at htables
    exact hample pages hnodup htables

/-- Neither the cache nor an object is different. -/
theorem of_eq (htables : after.tables = before.tables) (hcache : after.cache = before.cache)
    (hframes : after.frames = before.frames) : before.Lodges after where
  tables_eq := htables
  capacity_eq := congrArg Cache.capacity hcache
  fits hfits := hcache ▸ hfits
  readable hreadable ref := hframes ▸ hreadable ref
  lasting _ _ _ hcached := by
    simp only [standing, Pool.page, hcache, hframes] at hcached ⊢
    exact hcached

theorem promote (hpeek : pool.cache.peek? id = some ref) :
    pool.Lodges { pool with cache := pool.cache.promote id ref } where
  tables_eq := rfl
  capacity_eq := rfl
  fits hfits := hfits.promote hpeek
  readable hreadable := hreadable
  lasting _ other _ hcached :=
    (congrArg (Option.map _) (Cache.samePages_promote hpeek other)).trans hcached

theorem used (pool : Pool) (id : PageId) : pool.Lodges (pool.used id) := by
  cases hpeek : pool.cache.peek? id with
  | none =>
      rw [used_of_absent hpeek]
      exact .refl pool
  | some ref =>
      rw [used_of_resident hpeek]
      exact .promote hpeek

end Lodges

theorem Coherent.ends_install_lodges (hpool : pool.Coherent) (page : Page) :
    Ends (install page) pool (fun _ after => pool.Lodges after) (fun _ after => after = pool) := by
  refine ends_install_iff.2 ⟨fun _ hpeek => .promote hpeek, fun habsent =>
    ends_cachePage_iff.2 ⟨fun evicted cache hput => ?_, fun _ _ => rfl⟩⟩
  have hout : page.id ∉ pool.cache.pages := fun hmem => by
    have hpeek := Cache.contains_iff.2 hmem
    rw [Cache.contains, habsent] at hpeek
    cases hpeek
  refine ⟨rfl, Cache.capacity_of_put hput, fun hfits => hfits.put hout hput,
    fun hreadable ref => ?_, fun hample other entry hcached => ?_⟩
  · rw [Frames.latch_alloc]
    split
    · exact hreadable ref
    · rfl
  · obtain ⟨hpeek, hobject⟩ := standing_cached_iff.1 hcached
    have hne : other ≠ page.id := by
      rintro rfl
      rw [habsent] at hpeek
      cases hpeek
    rw [Cache.put_of_room (.inr (hample.room hpool))] at hput
    cases hput
    refine standing_cached_iff.2 ⟨?_, ?_⟩
    · rw [Cache.peek?_promote, if_neg hne, hpeek]
    · rw [hobject, Pool.page, Pool.page, Frames.page_alloc,
        if_neg (Nat.ne_of_lt (hpool.inside hpeek))]

end Pool

end PagePool
