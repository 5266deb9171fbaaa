import Mathlib
import PagePool.Proofs.Session.Ledger

/-!
# Cache, locks and storage agree

In every session that a run reaches, a cached page that nobody has locked for writing is what
storage holds. If a transaction has locked it for writing, its object has the bytes of storage or
those of that transaction, and then the before-image is what was committed last.
-/

namespace PagePool

open LockRecord Standing Pool

/-- The object of a page that a transaction has locked for writing, over the bytes in storage, when
the given bytes were the last to be committed. -/
structure Page.Owned (page : Page) (tx : TxId) (committed stored : Bytes) : Prop where
  dirty_or : page.dirty = none ∨ page.dirty = some tx
  image_eq : ∀ image, page.beforeImage = some image → image = committed
  settled : page.beforeImage = none → page.Settled stored
  unstolen : page.beforeImage.isSome → page.stolen = false → stored = committed
  stolen : page.beforeImage.isSome → page.dirty = none → page.stolen = true ∧ page.data = stored

theorem LockTable.not_ownedBy_of_mode {table : LockTable} {id : PageId}
    (h : ∀ tx, table.mode? tx id ≠ some .exclusive) (tx : TxId) :
    ¬OwnedBy (table.records id) tx :=
  fun howner => h tx (mode?_eq_exclusive_iff.2 howner)

theorem Page.Faithful.owned {page : Page} {records : List LockRecord} {id : PageId}
    {stored committed : Bytes} {tx : TxId} (h : page.Faithful records stored)
    (hcompatible : Compatible id records) (howner : OwnedBy records tx)
    (hcommitted : page.beforeImage.getD page.data = committed) :
    page.Owned tx committed stored := by
  rcases h with hsettled | ⟨owner, image, howner', hunfinished⟩
  · have hnone : ¬page.beforeImage.isSome := by simp [hsettled.image_eq]
    refine ⟨.inl hsettled.dirty_eq, fun image himage => ?_, fun _ => hsettled,
      fun himage => absurd himage hnone, fun himage => absurd himage hnone⟩
    rw [hsettled.image_eq] at himage
    cases himage
  · obtain rfl := hcompatible.heldBy_eq howner howner'.heldBy
    rw [hunfinished.image_eq, Option.getD_some] at hcommitted
    subst hcommitted
    refine ⟨?_, fun other hother => ?_, fun hnone => ?_, fun _ hunstolen => ?_, fun _ hclean => ?_⟩
    · exact hunfinished.dirty_or.symm.imp_left And.left
    · exact Option.some.inj (hother.symm.trans hunfinished.image_eq)
    · rw [hunfinished.image_eq] at hnone
      cases hnone
    · apply hunfinished.stored_or.resolve_left
      rw [hunstolen]
      exact Bool.false_ne_true
    · rcases hunfinished.dirty_or with hdirty | ⟨_, hstolen⟩
      · rw [hclean] at hdirty
        cases hdirty
      · exact hstolen

namespace Session

variable {pool : Pool} {now : Nat} {events : List Event}

theorem Follows.ledger_start (h : (Session.ofPool pool now).Follows events) (hready : pool.Ready) :
    ((Session.ofPool pool now).audit (.start pool) events).Sound
      ((Session.ofPool pool now).run events).pool := by
  refine h.ledger (.ofPool hready now) (.start fun id => ?_)
  simp [Cache.peek?, hready.empty]

end Session

/-- A pool with room for one of the two pages of its table. -/
def Pool.onePlace : Pool where
  pageSize := 2
  cache := { capacity := 1, entries := [] }
  frames := .empty
  locks := .new .default .plain
  tables := [{ id := 0, volume := 0, kind := .stamps .exclusive }]
  volumes := [.ofMedium (.memory [[1, 2], [3, 4]])]

theorem Pool.onePlace_ready : Pool.onePlace.Ready where
  empty := rfl
  unlocked _ := rfl
  backed := by decide
  reliable := by
    intro table hmem
    obtain rfl := List.mem_singleton.1 hmem
    exact Volume.reliable_ofMemory (by decide)
  apart := by decide
  strict := by
    intro table hmem
    obtain rfl := List.mem_singleton.1 hmem
    simp

/-- A page is written, flushed, and written again. -/
def stealing : List Event :=
  [.start 0 (.get 1 ⟨0, 0⟩ .exclusive), .evaluate 0, .command (.write 0 1 0 [9]),
    .command .flushAll, .command (.write 0 1 1 [8])]

namespace Session

variable {pool : Pool} {now : Nat} {events : List Event}

/-- **Coherence.** However transactions interleave, every cached page is backed by storage. A page
that nobody has locked for writing is clean and has the bytes of storage. On a page that somebody
has locked for writing, nobody else's writes are under way. A heap table has fewer than 2 ^ 32 pages
whenever an insertion into it goes on; else the page that is appended clears another one in storage,
behind the cache. -/
theorem coherent_of_follows (hready : pool.Ready)
    (h : (Session.ofPool pool now).Follows events) {id : PageId} {ref : PageRef}
    (hresident : ((Session.ofPool pool now).run events).pool.cache.peek? id = some ref) :
    let after := ((Session.ofPool pool now).run events).pool
    let ledger := (Session.ofPool pool now).audit (.start pool) events
    ∃ stored, after.stored? id = some stored ∧
      ((∀ tx, after.locks.table.mode? tx id ≠ some .exclusive) →
        (after.page ref).Settled stored) ∧
      ∀ tx, after.locks.table.mode? tx id = some .exclusive →
        (after.page ref).Owned tx (ledger.committed id) stored := by
  intro after ledger
  have hcoherent := (h.sound hready).coherent.coherent id
  have hcached := standing_cached hresident
  obtain ⟨stored, hstored, _, hfaithful⟩ := hcoherent.resident _ _ hcached
  refine ⟨stored, hstored, fun hfree => ?_, fun tx howner => ?_⟩
  · obtain ⟨bytes, hbytes, hsettled⟩ :=
      hcoherent.settled (LockTable.not_ownedBy_of_mode hfree) hcached
    rwa [Option.some.inj (hstored.symm.trans hbytes)]
  · have hbase := (h.ledger_start hready id).base_eq
    rw [base_of_cached hcached] at hbase
    exact hfaithful.owned hcoherent.compatible (LockTable.mode?_eq_exclusive_iff.1 howner) hbase

/-- A written page that a flush has stolen still has its before-image. -/
theorem owned_of_stolen :
    let after := ((Session.ofPool .onePlace 0).run stealing).pool
    let ledger := (Session.ofPool .onePlace 0).audit (.start .onePlace) stealing
    ∃ stored, after.stored? ⟨0, 0⟩ = some stored ∧
      (after.page 0).Owned 1 (ledger.committed ⟨0, 0⟩) stored := by
  obtain ⟨stored, hstored, _, howned⟩ :=
    coherent_of_follows Pool.onePlace_ready (by decide_cbv : (ofPool .onePlace 0).Follows stealing)
      (by decide_cbv : ((ofPool .onePlace 0).run stealing).pool.cache.peek? ⟨0, 0⟩ = some 0)
  exact ⟨stored, hstored, howned 1 (by decide_cbv)⟩

end Session

end PagePool
