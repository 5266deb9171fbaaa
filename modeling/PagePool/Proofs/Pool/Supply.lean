import PagePool.Proofs.Pool.Untouched
import PagePool.Proofs.Storage.Outline

/-!
# When a page can be had

Under the rules that count a page that nobody has locked for writing is spare, so the locks and the
latches alone say whether the cache has room for one more page. A page can be had exactly if it is
there, or if it is stored and there is room, and whoever cannot have it has changed nothing.
-/

namespace PagePool

open LockRecord Pool

namespace Cache

variable {cache : Cache} {page : PageId} {ref : PageRef}

/-- A page has come to the front, and at most one other has left. -/
def Gains (before after : Cache) (page : PageId) (ref : PageRef) : Prop :=
  after.entries.head? = some (page, ref) ∧ ∃ gone : Option PageId,
    after.pages = page :: before.pages.filter fun other => other ≠ page ∧ some other ≠ gone

theorem pages_remove (cache : Cache) (page : PageId) :
    (cache.remove page).pages = cache.pages.filter (· ≠ page) := by
  rw [pages, pages, List.filter_map]
  rfl

theorem gains_promote (cache : Cache) (page : PageId) (ref : PageRef) :
    cache.Gains (cache.promote page ref) page ref := by
  refine ⟨rfl, none, congrArg (page :: ·) ?_⟩
  change (cache.remove page).pages = _
  rw [pages_remove]
  simp

theorem gains_evict (cache : Cache) (victim page : PageId) (ref : PageRef) :
    cache.Gains ((cache.remove victim).promote page ref) page ref := by
  refine ⟨rfl, some victim, congrArg (page :: ·) ?_⟩
  change ((cache.remove victim).remove page).pages = _
  rw [pages_remove, pages_remove, List.filter_filter]
  congr 1
  funext other
  simp

theorem victim?_eq_none {frames : Frames} {pinned : PageId → Bool} (hnodup : cache.pages.Nodup) :
    cache.victim? frames pinned = none ↔ ∀ victim object, cache.peek? victim = some object →
      pinned victim = false → (frames.frame object).isSpare = false := by
  rw [victim?, List.find?_eq_none]
  simp only [List.mem_reverse, Bool.and_eq_true, Bool.not_eq_true', not_and, Prod.forall,
    ← peek?_eq_some_iff hnodup, Bool.not_eq_true]

end Cache

namespace Pool

/-- There is a free place in the cache, or a page that nobody has locked for writing and whose latch
can be read: nobody is writing it, and nobody has panicked while writing it. -/
def MakesRoom (pool : Pool) : Prop :=
  pool.cache.entries.length < pool.cache.capacity ∨
    ∃ victim object, pool.cache.peek? victim = some object ∧ pool.isPinned victim = false ∧
      (pool.frames.frame object).latch.refusesRead = false

/-- The table of the page is registered, and its storage has the page. -/
def Stores (pool : Pool) (id : PageId) : Prop :=
  ∃ table, pool.table? id.table = some table ∧
    ((pool.volume table.volume).stored? pool.pageSize id.index.toNat).isSome

def Obtainable (pool : Pool) (id : PageId) : Prop :=
  (pool.cache.peek? id).isSome ∨ (pool.Stores id ∧ pool.MakesRoom)

/-- How a request for a page ends that nobody blocks. -/
structure Answers (before : Pool) (id : PageId) (result : Except Failure PageRef) (after : Pool) :
    Prop where
  ok_iff : (∃ ref, result = .ok ref) ↔ before.Obtainable id
  gains : ∀ ref, result = .ok ref → before.cache.Gains after.cache id ref
  refused : ∀ failure, result = .error failure →
    after.cache = before.cache ∧ after.frames = before.frames ∧
      (∀ ref, (after.volume ref).medium = (before.volume ref).medium) ∧
      ((∃ error, failure = .error error ∧
        (error.kind = .notFound ∨ error.kind = .resourceExhausted)) ∨ before.pageSize = 0)

variable {pool : Pool} {id : PageId} {ref : PageRef}

theorem stores_iff : pool.Stores id ↔ (pool.stored? id).isSome := by
  unfold Stores stored?
  cases pool.table? id.table with
  | none => simp
  | some table => simp

/-- No page that nobody has locked for writing is kept from leaving by what it went through. -/
theorem Tidy.clean_of_free (h : pool.Tidy .strict) (hpeek : pool.cache.peek? id = some ref)
    (hfree : pool.isPinned id = false) :
    (pool.page ref).dirty = none ∧ (pool.page ref).stolen = false :=
  ((h.kept hpeek).clean (unowned_of_free hfree)).2

theorem Coherent.clean_of_free (h : pool.Coherent) (hpeek : pool.cache.peek? id = some ref)
    (hfree : pool.isPinned id = false) :
    (pool.page ref).dirty = none ∧ (pool.page ref).stolen = false := by
  obtain ⟨_, _, hsettled⟩ := (h.coherent id).settled (unowned_of_free hfree) (standing_cached hpeek)
  exact ⟨hsettled.dirty_eq, hsettled.stolen_eq⟩

section Room

variable (hnodup : pool.cache.pages.Nodup)
  (hclean : ∀ {id ref}, pool.cache.peek? id = some ref → pool.isPinned id = false →
    (pool.page ref).dirty = none ∧ (pool.page ref).stolen = false)
include hnodup hclean

omit hnodup in
theorem isSpare_of_free (hpeek : pool.cache.peek? id = some ref)
    (hfree : pool.isPinned id = false) : (pool.frames.frame ref).isSpare =
      !(pool.frames.frame ref).latch.refusesRead := by
  obtain ⟨hdirty, hstolen⟩ := hclean hpeek hfree
  change (pool.frames.frame ref).page.dirty = none at hdirty
  change (pool.frames.frame ref).page.stolen = false at hstolen
  simp [Frame.isSpare, hdirty, hstolen]

/-- A page that is not there comes in exactly if there is room for it. -/
theorem put_exact (habsent : pool.cache.peek? id = none) (ref : PageRef) :
    (pool.MakesRoom ∧ ∃ evicted cache,
        pool.cache.put pool.frames pool.isPinned id ref = .ok (evicted, cache) ∧
          pool.cache.Gains cache id ref) ∨
      (¬pool.MakesRoom ∧ pool.cache.put pool.frames pool.isPinned id ref =
        .error (.noVictim pool.cache.entries.length)) := by
  have hout : id ∉ pool.cache.pages := by
    rw [← Cache.contains_iff, Cache.contains, habsent]
    simp
  by_cases hroom : pool.cache.entries.length < pool.cache.capacity
  · exact .inl ⟨.inl hroom, _, _, Cache.put_of_room (.inr hroom), pool.cache.gains_promote id ref⟩
  rw [Cache.put_of_full hout (Nat.le_of_not_lt hroom)]
  cases hvictim : pool.cache.victim? pool.frames pool.isPinned with
  | some victim =>
      obtain ⟨hpeek, hfree, hspare⟩ := Cache.victim?_eq_some hnodup hvictim
      rw [isSpare_of_free hclean hpeek hfree, Bool.not_eq_true'] at hspare
      exact .inl ⟨.inr ⟨_, _, hpeek, hfree, hspare⟩, _, _, rfl, pool.cache.gains_evict _ id ref⟩
  | none =>
      refine .inr ⟨?_, rfl⟩
      rintro (hlt | ⟨victim, object, hpeek, hfree, hlatch⟩)
      · exact hroom hlt
      · have hspare := (Cache.victim?_eq_none hnodup).1 hvictim victim object hpeek hfree
        rw [isSpare_of_free hclean hpeek hfree, hlatch] at hspare
        cases hspare

theorem ends_install_exact (id : PageId) (data : Bytes) :
    Ends (install (.load id data)) pool
      (fun ref after => ((pool.cache.peek? id).isSome ∨ pool.MakesRoom) ∧
        pool.cache.Gains after.cache id ref ∧ after.locks = pool.locks)
      (fun failure after => after = pool ∧ pool.cache.peek? id = none ∧ ¬pool.MakesRoom ∧
        failure = .error (.noVictim pool.cache.entries.length)) := by
  refine ends_install_iff.2 ⟨fun ref hpeek => ?_, fun habsent => ends_cachePage_iff.2 ?_⟩
  · have hpeek : pool.cache.peek? id = some ref := hpeek
    exact ⟨.inl (by rw [hpeek]; rfl), pool.cache.gains_promote id ref, rfl⟩
  have habsent : pool.cache.peek? id = none := habsent
  rcases put_exact hnodup hclean habsent pool.frames.next with
    ⟨hroom, _, cache, hput, hgains⟩ | ⟨hfull, hput⟩
  · refine ⟨fun _ _ hput' => ?_, fun _ hput' => nomatch hput.symm.trans hput'⟩
    cases hput.symm.trans hput'
    exact ⟨.inr hroom, hgains, rfl⟩
  · refine ⟨fun _ _ hput' => (nomatch hput.symm.trans hput'), fun _ hput' => ?_⟩
    cases hput.symm.trans hput'
    exact ⟨rfl, habsent, hfull, rfl⟩

end Room

section Tidy

variable (h : pool.Tidy .strict)
include h

theorem Tidy.ends_readStored_exact {table : Table} (htable : pool.table? id.table = some table) :
    Ends (readStored table id) pool
      (fun page after => pool.Stores id ∧ (∃ data, page = Page.load id data) ∧
        after.cache = pool.cache ∧ after.frames = pool.frames ∧ after.locks = pool.locks)
      (fun failure after => ¬pool.Stores id ∧ after.cache = pool.cache ∧
        after.frames = pool.frames ∧ after.locks = pool.locks ∧ pool.Untouched after ∧
        ((∃ error, failure = .error error ∧ error.kind = .notFound) ∨ pool.pageSize = 0)) := by
  have hreliable := h.reliable_of_eq htable
  have hstores : pool.Stores id ↔
      ((pool.volume table.volume).stored? pool.pageSize id.index.toNat).isSome := by
    rw [stores_iff, stored?, htable, Option.bind_some]
  rw [ends_readStored_iff, hstores]
  refine ((Volume.ends_readPage hreliable table.id id).and
    (Volume.ends_readPage_outline hreliable table.id id)).mono ?_ ?_
  · intro page volume hread
    obtain ⟨⟨_, _, data, hdata, rfl⟩, _⟩ := hread
    exact ⟨hdata ▸ rfl, ⟨data, rfl⟩, rfl, rfl, rfl⟩
  · intro failure volume hread
    obtain ⟨⟨_, hmedium, hnone⟩, _, rfl⟩ := hread
    refine ⟨by simp [hnone], rfl, rfl, rfl, .setVolume hmedium, ?_⟩
    unfold Volume.Outline.missing
    split
    · split
      · next hsize => exact .inr hsize
      · exact .inl ⟨_, rfl, rfl⟩
    · exact .inl ⟨_, rfl, rfl⟩

/-- A look for a page, with what it finds out. -/
theorem Tidy.ends_fetch_exact (id : PageId) :
    Ends (fetch id) pool
      (fun fetched after => after.locks = pool.locks ∧
        match fetched with
        | .resident ref => pool.cache.peek? id = some ref ∧ pool.cache.Gains after.cache id ref
        | .loaded page => pool.cache.peek? id = none ∧ pool.Stores id ∧
            (∃ data, page = Page.load id data) ∧ after.cache = pool.cache ∧
            after.frames = pool.frames)
      (fun failure after => after.locks = pool.locks ∧ pool.cache.peek? id = none ∧
        ¬pool.Stores id ∧ after.cache = pool.cache ∧ after.frames = pool.frames ∧
        pool.Untouched after ∧
        ((∃ error, failure = .error error ∧ error.kind = .notFound) ∨ pool.pageSize = 0)) := by
  refine ends_fetch_iff.2 ⟨fun ref hpeek => ⟨rfl, hpeek, pool.cache.gains_promote id ref⟩,
    fun habsent => ?_⟩
  cases htable : pool.table? id.table with
  | none =>
      refine (ends_getTable_of_none htable).mono (fun _ _ => False.elim) ?_
      intro failure after hfails
      obtain ⟨rfl, rfl⟩ := hfails
      have hmissing : ¬after.Stores id := fun ⟨_, hfound, _⟩ => nomatch htable.symm.trans hfound
      exact ⟨rfl, habsent, hmissing, rfl, rfl, .refl _, .inl ⟨_, rfl, rfl⟩⟩
  | some table =>
      refine (ends_getTable_of_eq htable).mono ?_ fun _ _ => False.elim
      intro found middle hfound
      obtain ⟨rfl, rfl⟩ := hfound
      refine (h.ends_readStored_exact htable).mono ?_ ?_
      · intro page after hread
        obtain ⟨hstores, hdata, hcache, hframes, hlocks⟩ := hread
        exact ⟨hlocks, habsent, hstores, hdata, hcache, hframes⟩
      · intro failure after hread
        obtain ⟨hmissing, hcache, hframes, hlocks, huntouched, hkind⟩ := hread
        exact ⟨hlocks, habsent, hmissing, hcache, hframes, huntouched, hkind⟩

end Tidy

end Pool

end PagePool
