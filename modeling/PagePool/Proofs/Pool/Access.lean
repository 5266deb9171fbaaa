import PagePool.Proofs.Page
import PagePool.Proofs.Pool.Evolution
import PagePool.Proofs.Pool.Rules

/-!
# Access to pages

The steps that read, load and change pages let a coherent pool evolve. A page that has been fetched
is in the cache, or comes with the bytes that storage has for it.
-/

namespace PagePool

open LockRecord Standing Pool

namespace Pool

/-- An object that its owner has written since it was last settled. -/
def Modified (pool : Pool) (tx : TxId) (ref : PageRef) : Prop :=
  ∃ id, pool.cache.peek? id = some ref ∧ OwnedBy (pool.locks.table.records id) tx ∧
    (pool.page ref).beforeImage.isSome

/-- What a fetch gives: the object in the cache, or a new one with the stored bytes. -/
def Provides (pool : Pool) (id : PageId) : Fetched → Prop
  | .resident ref => pool.cache.peek? id = some ref
  | .loaded page => pool.cache.peek? id = none ∧
      ∃ data, pool.stored? id = some data ∧ page = Page.load id data

section Facts

variable {pool before after : Pool} {deed : Deed} {tx owner : TxId} {id : PageId} {ref : PageRef}

theorem Evolves.peek?_eq (h : Evolves deed tx before after) (hbefore : before.Coherent)
    (howner : OwnedBy (before.locks.table.records id) owner)
    (hpeek : before.cache.peek? id = some ref) :
    after.cache.peek? id = some ref ∧
      ((before.page ref).beforeImage.isSome → (after.page ref).beforeImage.isSome) := by
  obtain ⟨page, hcached, himage⟩ :=
    (h.moves id).cached_of_owned (hbefore.coherent id) howner (standing_cached hpeek)
  obtain ⟨hpeek', rfl⟩ := standing_cached_iff.1 hcached
  exact ⟨hpeek', himage⟩

theorem Evolves.ownedBy (h : Evolves deed tx before after)
    (howner : OwnedBy (before.locks.table.records id) owner) :
    OwnedBy (after.locks.table.records id) owner :=
  (h.moves id).ownedBy howner

theorem Evolves.modified (h : Evolves deed tx before after) (hbefore : before.Coherent)
    (hmodified : before.Modified owner ref) : after.Modified owner ref := by
  obtain ⟨id, hpeek, howner, himage⟩ := hmodified
  obtain ⟨hpeek', himage'⟩ := h.peek?_eq hbefore howner hpeek
  exact ⟨id, hpeek', h.ownedBy howner, himage' himage⟩

theorem evolves_rewritten (hsound : pool.Sound) (hpeek : pool.cache.peek? id = some ref)
    (howner : OwnedBy (pool.locks.table.records id) tx) {page : Page}
    (hpage : (pool.page ref).Rewritten tx page) :
    Evolves .change tx pool (pool.setPage ref page) ∧ (pool.setPage ref page).Modified tx ref := by
  obtain ⟨data, hlength, rfl⟩ := hpage
  constructor
  · refine .setPage hsound hpeek (hsound.named hpeek) ?_ fun h => absurd rfl h
    exact .single (.write rfl (standing_cached hpeek) howner hlength)
  · refine ⟨id, hpeek, howner, ?_⟩
    rw [page_setPage_self hsound hpeek]
    rfl

end Facts

end Pool

section Steps

variable {pool : Pool} (hpool : pool.Coherent) {id : PageId} {ref : PageRef} {tx : TxId}
include hpool

/-- A step of the owner on a page object that rewrites it, and may leave it alone if it fails. -/
theorem ends_onPage_owned {Result : Type} {step : EStateM Failure Page Result}
    (hpeek : pool.cache.peek? id = some ref) (howner : OwnedBy (pool.locks.table.records id) tx)
    (hstep : Ends step (pool.page ref) (fun _ after => (pool.page ref).Rewritten tx after)
      (fun _ after => after = pool.page ref ∨ (pool.page ref).Rewritten tx after)) :
    Ends (onPage ref step) pool
      (fun _ after => Evolves .change tx pool after ∧ after.locks = pool.locks ∧
        after.Modified tx ref)
      (fun _ after => Evolves .change tx pool after) := by
  rw [ends_onPage]
  apply hstep.mono
  · intro _ page hpage
    obtain ⟨hevolves, hmodified⟩ := evolves_rewritten hpool.toSound hpeek howner hpage
    exact ⟨hevolves, rfl, hmodified⟩
  · rintro _ page (rfl | hpage)
    · rw [setPage_page]
      exact .refl hpool.toSound
    · exact (evolves_rewritten hpool.toSound hpeek howner hpage).1

theorem ends_readStored {table : Table} (htable : pool.table? id.table = some table) :
    Ends (readStored table id) pool
      (fun page after => Evolves .access tx pool after ∧ after.locks = pool.locks ∧
        after.cache = pool.cache ∧ ∃ data, after.stored? id = some data ∧ page = Page.load id data)
      (fun _ after => Evolves .access tx pool after) := by
  rw [ends_readStored_iff]
  have hstored : pool.stored? id =
      (pool.volume table.volume).stored? pool.pageSize id.index.toNat := by
    rw [stored?, htable]
    rfl
  apply (Volume.ends_readPage (hpool.reliable htable) table.id id).mono
  · rintro page volume ⟨hvolume, hmedium, data, hdata, rfl⟩
    refine ⟨.setVolume hpool.toSound htable hvolume (Volume.stored?_congr hmedium), rfl, rfl,
      data, ?_, rfl⟩
    rw [stored?_setVolume hpool.toSound htable, if_pos rfl, Volume.stored?_congr hmedium, hdata]
  · rintro _ volume ⟨hvolume, hmedium, _⟩
    exact .setVolume hpool.toSound htable hvolume (Volume.stored?_congr hmedium)

theorem ends_fetch (tx : TxId) (id : PageId) :
    Ends (fetch id) pool
      (fun fetched after => Evolves .access tx pool after ∧ after.locks = pool.locks ∧
        after.Provides id fetched)
      (fun _ after => Evolves .access tx pool after) := by
  refine ends_fetch_iff.2 ⟨fun ref hpeek => ?_, fun habsent => ?_⟩
  · have hsame := Cache.samePages_promote hpeek
    exact ⟨.samePages hpool.toSound (Cache.nodup_promote hpool.nodup id ref) hsame, rfl,
      (hsame id).trans hpeek⟩
  · apply (ends_getTable id.table pool).mono _ fun _ after hafter => by
      rw [hafter]
      exact .refl hpool.toSound
    rintro table _ ⟨rfl, htable⟩
    refine (ends_readStored hpool htable).mono ?_ fun _ _ hafter => hafter
    rintro page after ⟨hafter, hlocks, hcache, hpage⟩
    exact ⟨hafter, hlocks, by rw [hcache, habsent], hpage⟩

theorem evolves_load {data : Bytes} (habsent : pool.cache.peek? id = none)
    (hstored : pool.stored? id = some data) :
    Evolves .access tx pool
      { pool with
        cache := pool.cache.promote id pool.frames.next
        frames := pool.frames.alloc (Page.load id data) } := by
  have hpage : ∀ ref, (pool.frames.alloc (Page.load id data)).page ref =
      if ref = pool.frames.next then Page.load id data else pool.page ref := fun ref =>
    Frames.page_alloc pool.frames _ ref
  have hnext : (pool.frames.alloc (Page.load id data)).next = pool.frames.next + 1 :=
    List.length_append
  have hold : ∀ {other ref}, pool.cache.peek? other = some ref → ref ≠ pool.frames.next :=
    fun hother => Nat.ne_of_lt (hpool.inside hother)
  refine ⟨⟨Cache.nodup_promote hpool.nodup _ _, ?_, ?_, hpool.backed, hpool.reliable, hpool.apart⟩,
    rfl, rfl, Nat.le.intro hnext.symm, ?_, ?_, ?_, ?_⟩
  · intro other ref hother
    change ref < (pool.frames.alloc (Page.load id data)).next
    rw [Cache.peek?_promote] at hother
    rw [hnext]
    split at hother
    · rw [← Option.some.inj hother]
      exact Nat.lt_succ_self _
    · exact Nat.lt_succ_of_lt (hpool.inside hother)
  · intro other ref hother
    change ((pool.frames.alloc (Page.load id data)).page ref).id = other
    rw [Cache.peek?_promote] at hother
    rw [hpage]
    split at hother
    · next hsame =>
      rw [← Option.some.inj hother, if_pos rfl, hsame]
      rfl
    · rw [if_neg (hold hother)]
      exact hpool.named hother
  · intro other
    by_cases hsame : other = id
    · subst hsame
      apply Relation.ReflTransGen.single
      have hload := @Move.load pool.pageSize .access other tx (pool.standing other)
        pool.frames.next data (standing_cached_none habsent) hstored
      convert hload using 1
      simp only [standing, Cache.peek?_promote, if_true, Option.map_some, Pool.page, hpage]
      rfl
    · apply Moves.of_eq
      simp only [standing, Cache.peek?_promote, if_neg hsame, Pool.page]
      congr 1
      refine Option.map_congr fun ref hother => ?_
      rw [hpage, if_neg (hold hother), Pool.page]
  · intro ref hin
    change ((pool.frames.alloc (Page.load id data)).page ref).id = _
    rw [hpage, if_neg (Nat.ne_of_lt hin)]
  · intro _ ref hin
    change ((pool.frames.alloc (Page.load id data)).page ref).data = _
    rw [hpage, if_neg (Nat.ne_of_lt hin)]
  · intro other ref hother
    rw [Cache.peek?_promote] at hother
    split at hother
    · rw [← Option.some.inj hother]
      exact .inr (Nat.le_refl _)
    · exact .inl hother

/-- A page that nobody has locked for writing, and whose object is spare, leaves the cache. -/
theorem evolves_evict (tx : TxId) (hpeek : pool.cache.peek? id = some ref)
    (hfree : pool.isPinned id = false) (hspare : (pool.frames.frame ref).isSpare = true) :
    Evolves .access tx pool { pool with cache := pool.cache.remove id } := by
  have hunowned := unowned_of_free hfree
  simp only [Frame.isSpare, Bool.and_eq_true, Bool.not_eq_true',
    Option.isNone_iff_eq_none] at hspare
  refine ⟨⟨Cache.nodup_remove hpool.nodup _, ?_, ?_, hpool.backed, hpool.reliable, hpool.apart⟩,
    rfl, rfl, Nat.le_refl _, ?_, fun _ _ => rfl, fun _ _ _ => rfl, ?_⟩
  · intro other ref hother
    rw [Cache.peek?_remove] at hother
    exact hpool.inside (Option.ite_none_left_eq_some.1 hother).2
  · intro other ref hother
    rw [Cache.peek?_remove] at hother
    exact hpool.named (Option.ite_none_left_eq_some.1 hother).2
  · intro other
    by_cases hsame : other = id
    · subst hsame
      apply Relation.ReflTransGen.single
      convert Move.evict (standing_cached hpeek) hspare.1.2 hspare.2 hunowned using 1
      simp only [standing, Cache.peek?_remove, if_true, Option.map_none]
      rfl
    · apply Moves.of_eq
      simp only [standing, Cache.peek?_remove, if_neg hsame]
      rfl
  · intro other ref hother
    rw [Cache.peek?_remove] at hother
    exact .inl (Option.ite_none_left_eq_some.1 hother).2

theorem ends_cachePage_resident (tx : TxId) (hpeek : pool.cache.peek? id = some ref) :
    Ends (cachePage id ref) pool
      (fun _ after => Evolves .access tx pool after ∧ after.locks = pool.locks ∧
        pool.cache.SamePages after.cache)
      (fun _ _ => False) := by
  have hsame := Cache.samePages_promote hpeek
  rw [ends_cachePage_iff, Cache.put_resident hpeek]
  refine ⟨?_, fun _ hfails => by cases hfails⟩
  rintro _ _ ⟨⟩
  exact ⟨.samePages hpool.toSound (Cache.nodup_promote hpool.nodup _ _) hsame, rfl, hsame⟩

/-- A page that has been read comes into the cache, unless it is there already. -/
theorem ends_install (tx : TxId) {data : Bytes}
    (hstored : pool.cache.peek? id = none → pool.stored? id = some data) :
    Ends (install (Page.load id data)) pool
      (fun ref after => Evolves .access tx pool after ∧ after.locks = pool.locks ∧
        after.cache.peek? id = some ref)
      (fun _ after => Evolves .access tx pool after) := by
  refine ends_install_iff.2 ⟨fun ref hpeek => ?_, fun habsent => ends_cachePage_iff.2 ⟨?_, ?_⟩⟩
  · have hsame := Cache.samePages_promote hpeek
    exact ⟨.samePages hpool.toSound (Cache.nodup_promote hpool.nodup id ref) hsame, rfl,
      (hsame id).trans hpeek⟩
  · intro evicted cache hput
    have hresident : ∀ cache : Cache,
        (cache.promote id pool.frames.next).peek? id = some pool.frames.next := fun cache => by
      rw [Cache.peek?_promote, if_pos rfl]
    rcases Cache.put_absent hpool.nodup habsent hput with
      rfl | ⟨victim, object, hvictim, hfree, hspare, hne, rfl⟩
    · exact ⟨evolves_load hpool habsent (hstored habsent), rfl, hresident _⟩
    · have hevicted := evolves_evict hpool tx hvictim hfree hspare
      refine ⟨hevicted.trans (evolves_load (hevicted.coherent hpool) ?_ (hstored habsent)), rfl,
        hresident _⟩
      rw [Cache.peek?_remove]
      exact (if_neg (Ne.symm hne)).trans habsent
  · exact fun _ _ => .refl hpool.toSound

end Steps

end PagePool
