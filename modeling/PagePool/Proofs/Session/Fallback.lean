import PagePool.Proofs.Session.Coherence
import PagePool.Proofs.Session.Dropping

/-!
# Aborts after pages have been dropped

The bytes that an abort goes back to are kept in the cache only. As long as the object of a page has
not gone to storage, storage has those bytes as well, and the page may be dropped and read again. If
it has, then dropping it leaves the bytes of a transaction under way in storage, and an abort takes
them for those from before it.

What an abort goes back to is told from the run: the bytes that the page showed when it was last
free to be locked for writing, or those that storage had when an object that had gone there was last
dropped.
-/

namespace PagePool

open LockRecord Standing Pool

/-- What an abort goes back to. -/
structure Fallback where
  /-- The bytes that a page showed when nobody had locked it for writing yet. -/
  found : PageId → Bytes
  /-- The bytes that storage had when the page was last dropped after its object had gone there. -/
  forfeited : PageId → Option Bytes

namespace Pool

/-- The object of the page has gone to storage before its writer has ended. -/
def isStolen (pool : Pool) (id : PageId) : Bool :=
  (pool.cache.peek? id).any fun ref => (pool.page ref).stolen

end Pool

namespace Fallback

def start (pool : Pool) : Fallback where
  found := pool.content
  forfeited _ := none

def record (fallback : Fallback) (session : Session) (event : Event) : Fallback where
  found id := if session.pool.isPinned id then fallback.found id else session.pool.content id
  forfeited id :=
    if session.pool.isPinned id then
      if event = .command (.discardPage id) ∧ session.pool.isStolen id then
        session.pool.stored? id
      else fallback.forfeited id
    else none

/-- On a page that is locked for writing, the pool would go back to what has been told. -/
def Tells (fallback : Fallback) (pool : Pool) : Prop :=
  ∀ id, pool.isPinned id = true →
    pool.base id = (fallback.forfeited id).getD (fallback.found id)

end Fallback

/-- What an abort goes back to after a list of events. -/
def Session.trace (session : Session) (fallback : Fallback) : List Event → Fallback
  | [] => fallback
  | event :: rest => (session.step event).trace (fallback.record session event) rest

namespace Pool

variable {pool before after : Pool} {tx : TxId} {id : PageId}

theorem isStolen_iff : pool.isStolen id = true ↔
    ∃ ref page, (pool.standing id).cached = some (ref, page) ∧ page.stolen = true := by
  simp only [isStolen, Option.any_eq_true, standing_cached_iff]
  constructor
  · rintro ⟨ref, hpeek, hstolen⟩
    exact ⟨ref, _, ⟨hpeek, rfl⟩, hstolen⟩
  · rintro ⟨ref, _, ⟨hpeek, rfl⟩, hstolen⟩
    exact ⟨ref, hpeek, hstolen⟩

namespace Coherent

variable (hpool : pool.Coherent)
include hpool

theorem content_eq_base_of_free (hfree : pool.isPinned id = false) :
    pool.content id = pool.base id :=
  (hpool.coherent id).content_eq_base (unowned_of_free hfree)

theorem stored?_eq_onDisk (hstolen : pool.isStolen id = true) :
    pool.stored? id = some ((pool.standing id).onDisk pool.pageSize) := by
  obtain ⟨ref, page, hcached, _⟩ := isStolen_iff.1 hstolen
  obtain ⟨bytes, hstored, _⟩ := (hpool.coherent id).resident ref page hcached
  rw [onDisk, hstored]
  exact hstored

theorem not_isStolen_of_free (hfree : pool.isPinned id = false) : ¬pool.isStolen id = true := by
  intro hstolen
  obtain ⟨ref, page, hcached, hstolen⟩ := isStolen_iff.1 hstolen
  obtain ⟨_, _, hsettled⟩ := (hpool.coherent id).settled (unowned_of_free hfree) hcached
  rw [hsettled.stolen_eq] at hstolen
  cases hstolen

theorem onDisk_eq_base (hunstolen : ¬pool.isStolen id = true) :
    (pool.standing id).onDisk pool.pageSize = pool.base id := by
  apply (hpool.coherent id).onDisk_eq_base
  intro ref page hcached
  rw [← Bool.not_eq_true]
  exact fun hstolen => hunstolen (isStolen_iff.2 ⟨ref, page, hcached, hstolen⟩)

end Coherent

/-- The end of a transaction leaves the pages that others have locked for writing alone. -/
theorem Finishes.base_eq_of_pinned {ending : Ending} (h : before.Finishes ending tx after)
    (hbefore : before.Coherent) (hpinned : after.isPinned id = true) :
    after.base id = before.base id := by
  obtain ⟨owner, howner⟩ := isPinned_iff.1 hpinned
  obtain ⟨howner, hother⟩ := (h.ownedBy_iff id).1 howner
  have hfree : ¬HeldBy (before.locks.table.records id) tx := fun hheld =>
    hother ((hbefore.coherent id).compatible.heldBy_eq howner hheld).symm
  rw [base, base, h.others_eq id hfree, h.pageSize_eq]

/-- What an abort does to a page of its own. -/
theorem Finishes.abort_of_owned (h : before.Finishes .abort tx after) (hbefore : before.Coherent)
    (howner : OwnedBy (before.locks.table.records id) tx) :
    after.stored? id = (before.stored? id).map (fun _ => before.base id) ∧
      after.content id = before.base id := by
  have hstanding := h.held_eq id howner.heldBy
  constructor
  · calc after.stored? id
        = ((before.standing id).settle before.pageSize .abort id).stored :=
          congrArg Standing.stored hstanding
      _ = (before.stored? id).map fun _ => before.base id := (hbefore.coherent id).stored_settle
  · calc after.content id
        = ((before.standing id).settle before.pageSize .abort id).content before.pageSize := by
          rw [content, hstanding, h.pageSize_eq]
          rfl
      _ = before.base id := content_settle before.pageSize .abort id (before.standing id)

theorem Finishes.same_of_unowned {ending : Ending} (h : before.Finishes ending tx after)
    (hbefore : before.Coherent) (hunowned : ¬OwnedBy (before.locks.table.records id) tx) :
    after.stored? id = before.stored? id ∧ after.content id = before.content id := by
  have hstanding := h.standing_eq_of_unowned hbefore hunowned
  refine ⟨congrArg Standing.stored hstanding, ?_⟩
  rw [content, hstanding, h.pageSize_eq]
  rfl

end Pool

theorem Fallback.tells_start {pool : Pool} (hready : pool.Ready) :
    (Fallback.start pool).Tells pool := by
  intro id hpinned
  obtain ⟨_, record, hmem, _⟩ := isPinned_iff.1 hpinned
  rw [hready.unlocked id] at hmem
  cases hmem

namespace Session

variable {session : Session} {pool : Pool} {events : List Event} {now : Nat} {event : Event}
  {tx : TxId} {id : PageId} {fallback : Fallback}

theorem Effect.base_eq_of_pinned {after : Session} (h : session.Effect event after)
    (hsession : session.pool.Coherent) (hpinned : after.pool.isPinned id = true) :
    after.pool.base id = session.pool.base id := by
  cases h with
  | finish _ _ h => exact h.base_eq_of_pinned hsession hpinned
  | release _ h => exact congrFun h.base_eq id
  | act _ _ _ h => exact congrFun (h.base_eq hsession) id
  | serve _ h => exact congrFun ((h 0).base_eq hsession) id

/-- A page that is dropped falls back to what storage has. -/
theorem base_step_discardPage (session : Session) (page id : PageId) :
    (session.step (.command (.discardPage page))).pool.base id =
      if id = page then (session.pool.standing id).onDisk session.pool.pageSize
      else session.pool.base id := by
  change ((session.pool.without page).standing id).base session.pool.pageSize = _
  rw [standing_without]
  split <;> rfl

namespace Weathers

theorem coherent (h : session.Weathers) : session.pool.Coherent :=
  h.sound.coherent

/-- Only a page that is dropped after its object has gone to storage gets other bytes to go back
to. -/
theorem base_step (h : session.Weathers) (hroom : session.HasRoom event)
    (hpermits : session.PermitsDrops event) (hpinned : (session.step event).pool.isPinned id = true) :
    (session.step event).pool.base id =
      if event = .command (.discardPage id) ∧ session.pool.isStolen id then
        (session.pool.standing id).onDisk session.pool.pageSize
      else session.pool.base id := by
  by_cases hdrops : ∃ page, event = .command (.discardPage page)
  · obtain ⟨page, rfl⟩ := hdrops
    rw [base_step_discardPage]
    by_cases hid : id = page
    · subst hid
      rw [if_pos rfl]
      split
      · rfl
      · next hkept => exact h.coherent.onDisk_eq_base fun hstolen => hkept ⟨rfl, hstolen⟩
    · rw [if_neg hid, if_neg]
      rintro ⟨hevent, _⟩
      cases hevent
      exact hid rfl
  · have heffect := (h.step hroom hpermits).2.resolve_right hdrops
    rw [heffect.base_eq_of_pinned h.coherent hpinned, if_neg]
    exact fun hevent => hdrops ⟨id, hevent.1⟩

/-- A transaction that is allowed to end ends. -/
theorem finishes {ending : Ending} (h : session.Weathers)
    (hroom : session.HasRoom (.command (.finish ending tx)))
    (hpermits : session.PermitsDrops (.command (.finish ending tx))) :
    (session.step (.command (.finish ending tx))).log =
        .command (.finish ending tx) (.ok .unit) :: session.log ∧
      session.pool.Finishes ending tx (session.step (.command (.finish ending tx))).pool := by
  have hkeeps : ¬∃ page, Event.command (.finish ending tx) = .command (.discardPage page) := by simp
  cases (h.step hroom hpermits).2.resolve_right hkeeps with
  | finish hevent hlog hfinishes =>
      cases hevent
      exact ⟨hlog, hfinishes⟩
  | release hevent => cases hevent
  | act hevent => exact absurd rfl (hevent ending tx)
  | serve hactor => cases hactor

/-- One event keeps the fallback true to the pool. -/
theorem tells (h : session.Weathers) (hroom : session.HasRoom event)
    (hpermits : session.PermitsDrops event) (htells : fallback.Tells session.pool) :
    (fallback.record session event).Tells (session.step event).pool := by
  intro id hpinned
  rw [h.base_step hroom hpermits hpinned]
  cases hheld : session.pool.isPinned id with
  | true =>
      simp only [Fallback.record, hheld, if_true]
      split
      · next hdropped => rw [h.coherent.stored?_eq_onDisk hdropped.2, Option.getD_some]
      · exact htells id hheld
  | false =>
      simp only [Fallback.record, hheld, Bool.false_eq_true, if_false, Option.getD_none]
      rw [if_neg fun hdropped => h.coherent.not_isStolen_of_free hheld hdropped.2]
      exact (h.coherent.content_eq_base_of_free hheld).symm

end Weathers

theorem FollowsDropping.weathers (h : session.FollowsDropping events) (hsession : session.Weathers)
    (htells : fallback.Tells session.pool) : (session.run events).Weathers ∧
      (session.trace fallback events).Tells (session.run events).pool := by
  induction events generalizing session fallback with
  | nil => exact ⟨hsession, htells⟩
  | cons event rest ih =>
      obtain ⟨hroom, hpermits, hrest⟩ := h
      exact ih hrest (hsession.step hroom hpermits).1 (hsession.tells hroom hpermits htells)

theorem FollowsDropping.finishes {ending : Ending} (hready : pool.Ready)
    (h : (Session.ofPool pool now).FollowsDropping (events ++ [.command (.finish ending tx)])) :
    let before := (Session.ofPool pool now).run events
    let fallback := (Session.ofPool pool now).trace (.start pool) events
    let after := before.step (.command (.finish ending tx))
    before.pool.Coherent ∧ fallback.Tells before.pool ∧
      after.log = .command (.finish ending tx) (.ok .unit) :: before.log ∧
      before.pool.Finishes ending tx after.pool := by
  intro before fallback after
  obtain ⟨hrest, hroom, hpermits, _⟩ := followsDropping_append.1 h
  obtain ⟨hbefore, htells⟩ := hrest.weathers (.ofPool hready now) (Fallback.tells_start hready)
  exact ⟨hbefore.coherent, htells, hbefore.finishes hroom hpermits⟩

/-- **Abort after drops.** An abort succeeds, whatever has been dropped. Every page that the
transaction has locked for writing is back, in storage and for whoever gets it next, at the bytes
from before the lock, unless it has been dropped since when its object had gone to storage; then the
bytes that storage had at the last such drop stay. No other page is touched. A heap table has fewer
than 2 ^ 32 pages whenever an insertion into it goes on. -/
theorem abort_after_drops (hready : pool.Ready)
    (h : (Session.ofPool pool now).FollowsDropping (events ++ [.command (.finish .abort tx)])) :
    let before := (Session.ofPool pool now).run events
    let fallback := (Session.ofPool pool now).trace (.start pool) events
    let after := before.step (.command (.finish .abort tx))
    after.log = .command (.finish .abort tx) (.ok .unit) :: before.log ∧
      (∀ id, before.pool.locks.table.mode? tx id = some .exclusive →
        let bytes := (fallback.forfeited id).getD (fallback.found id)
        after.pool.stored? id = (before.pool.stored? id).map (fun _ => bytes) ∧
          after.pool.content id = bytes) ∧
      ∀ id, before.pool.locks.table.mode? tx id ≠ some .exclusive →
        after.pool.stored? id = before.pool.stored? id ∧
          after.pool.content id = before.pool.content id := by
  intro before fallback after
  obtain ⟨hbefore, htells, hlog, hfinishes⟩ := h.finishes hready
  refine ⟨hlog, fun id hmode => ?_, fun id hmode => ?_⟩
  · intro bytes
    have howner := LockTable.mode?_eq_exclusive_iff.1 hmode
    have hbase : before.pool.base id = bytes := htells id (isPinned_iff.2 ⟨tx, howner⟩)
    rw [← hbase]
    exact hfinishes.abort_of_owned hbefore howner
  · exact hfinishes.same_of_unowned hbefore fun howner =>
      hmode (LockTable.mode?_eq_exclusive_iff.2 howner)

/-- A page is written, flushed, dropped, and got again, between drops of another one. -/
def dropping : List Event :=
  [.start 0 (.get 1 ⟨0, 0⟩ .exclusive), .evaluate 0, .command (.write 0 1 0 [9]),
    .command (.flushPage ⟨0, 0⟩), .command (.discardPage ⟨0, 0⟩),
    .start 1 (.get 1 ⟨0, 1⟩ .exclusive), .evaluate 1, .command (.write 1 1 0 [8]),
    .command (.discardPage ⟨0, 1⟩),
    .start 2 (.get 1 ⟨0, 0⟩ .exclusive), .evaluate 2, .command (.write 2 1 1 [7]),
    .command (.write 0 1 0 [5])]

/-- Of two pages that have been written and dropped, the one that had gone to storage keeps a byte
of the transaction. -/
theorem abort_after_drops_stolen :
    let before := (Session.ofPool .onePlace 0).run dropping
    let after := before.step (.command (.finish .abort 1))
    after.pool.stored? ⟨0, 0⟩ = some [9, 2] ∧ after.pool.stored? ⟨0, 1⟩ = some [3, 4] := by
  obtain ⟨_, howned, _⟩ := abort_after_drops Pool.onePlace_ready
    (by decide_cbv : (ofPool .onePlace 0).FollowsDropping (dropping ++ [.command (.finish .abort 1)]))
  have hfirst := (howned ⟨0, 0⟩ (by decide_cbv)).1
  have hsecond := (howned ⟨0, 1⟩ (by decide_cbv)).1
  exact ⟨hfirst.trans (by decide_cbv), hsecond.trans (by decide_cbv)⟩

/-- So an abort does not undo all that its transaction has done: the byte that it wrote before the
drop is still there. -/
theorem not_abort_restores_dropped :
    let session := Session.ofPool .onePlace 0
    let before := session.run (dropping.take 5)
    let after := before.step (.command (.finish .abort 1))
    session.FollowsDropping (dropping.take 5 ++ [.command (.finish .abort 1)]) ∧
      session.pool.stored? ⟨0, 0⟩ = some [1, 2] ∧
      before.pool.locks.table.mode? 1 ⟨0, 0⟩ = some .exclusive ∧
      after.log = .command (.finish .abort 1) (.ok .unit) :: before.log ∧
      after.pool.stored? ⟨0, 0⟩ = some [9, 2] := by
  have hfollows : (Session.ofPool .onePlace 0).FollowsDropping
      (dropping.take 5 ++ [.command (.finish .abort 1)]) := by decide_cbv
  obtain ⟨_, _, hlog, _⟩ := hfollows.finishes Pool.onePlace_ready
  exact ⟨hfollows, by decide_cbv, by decide_cbv, hlog, by decide_cbv⟩

end Session

end PagePool
