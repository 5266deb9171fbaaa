import PagePool.Proofs.Session.Tenure
import PagePool.Proofs.Session.Coherence

/-!
# Writers keep their pages

A transaction that got a page for writing has the object that the cache has, for as long as it does
not give the page back: whatever the others do, nobody ever gets another object of the page.

Its lock does both. The page is pinned, so no other page drives it out, and a request of the owner
for it is blocked by nobody and finds it there.
-/

namespace PagePool

open LockRecord Pool

/-- A request for a page is one request, for the lock on it. -/
theorem Operation.Suits.eq_of_get {operation : Operation} {regime : Regime} {pool : Pool}
    {tx : TxId} {page : PageId} {mode : LockMode}
    (h : operation.Suits regime pool (.get tx page mode)) :
    operation = { request := { tx, page, mode }, goal := .page } := by
  obtain ⟨request, goal⟩ := operation
  have hgoal := h.suits
  cases goal with
  | page =>
      have hcall : Call.get tx page mode = .get request.tx request.page request.mode := hgoal
      cases hcall
      rfl
  | lock => cases hgoal
  | insert insertion layout placement => exact hgoal.1.elim
  | stamp insertion index cell rest changed => exact hgoal.1.elim
  | delete layout tuple pooled =>
      obtain ⟨⟨_, hconcerns, _⟩, _⟩ := hgoal
      exact hconcerns.elim
  | unstamp pooled =>
      obtain ⟨⟨_, _, hconcerns, _⟩, _⟩ := hgoal
      exact hconcerns.elim
  | scan table layout index bound found => cases hgoal

/-- The lock manager after it has granted a request. -/
def LockManager.grant (manager : LockManager) (request : Request) : LockManager :=
  { manager with table := manager.table.grant request }.stopWaiting request.tx

theorem fetch_resident {pool : Pool} {id : PageId} {ref : PageRef}
    (hpeek : pool.cache.peek? id = some ref) :
    fetch id pool = .ok (.resident ref) { pool with cache := pool.cache.promote id ref } := by
  rw [← ends_iff_eq, ends_fetch_iff, hpeek]
  exact ⟨by rintro _ ⟨⟩; exact ⟨rfl, rfl⟩, nofun⟩

namespace Session

variable {session : Session} {task : Task} {ref : PageRef}

/-- A call goes on at once with a page that is there. -/
theorem granted_of_resident (hgoal : task.operation.goal ≠ .lock)
    (hpeek : session.pool.cache.peek? task.operation.request.page = some ref) :
    session.granted task = session.resume task (task.operation.proceed ref
      { session.pool with
        cache := session.pool.cache.promote task.operation.request.page ref }) := by
  unfold granted
  rw [fetch_resident hpeek]
  split
  · next hlock => exact absurd hlock hgoal
  · rfl

theorem attempt_of_free {budget : Budget}
    (hfree : session.pool.locks.table.blockers task.operation.request = []) :
    session.attempt task budget =
      (session.withLocks (session.pool.locks.grant task.operation.request)).granted task := by
  unfold attempt
  rw [LockManager.attempt_of_free hfree]
  rfl

theorem evaluate_of_budget {budget : Budget}
    (hbudget : Budget.start session.pool.locks.policy session.now = .ok budget) :
    session.evaluate task =
      (session.withLocks (session.pool.locks.enter task.operation.request.tx)).attempt task
        budget := by
  unfold evaluate
  dsimp only
  split
  · next started hstarted =>
    cases hbudget.symm.trans hstarted
    rfl
  · next failure hfailed => cases hbudget.symm.trans hfailed

/-- A deadline that the clock cannot tell ends a request before it is made. -/
theorem evaluate_of_failure {failure : Failure}
    (hbudget : Budget.start session.pool.locks.policy session.now = .error failure) :
    session.evaluate task =
      (session.withLocks (session.pool.locks.enter task.operation.request.tx)).close task.id
        task.call ⟨.error failure, task.operation.goal.inserted?⟩ := by
  unfold evaluate
  dsimp only
  split
  · next started hstarted => cases hbudget.symm.trans hstarted
  · next failed hfailed =>
    cases hbudget.symm.trans hfailed
    rfl

/-- The object of a page that a transaction got is the one in the cache, and when the transaction
asks for the page again it gets the same. Nothing but a deadline that the clock cannot tell keeps it
from that. -/
structure Honours (session : Session) (loan : Loan) : Prop where
  resident : session.pool.cache.peek? loan.page = some loan.ref
  locked : session.pool.locks.table.mode? loan.tx loan.page = some .exclusive
  served : ∀ {id task mode}, session.task? id = some task →
    task.call = .get loan.tx loan.page mode → task.wait = .issued ∧
      (session.step (.evaluate id)).log =
        .call id task.call ⟨(Budget.start session.pool.locks.policy session.now).map fun _ =>
          .page loan.ref, none⟩ :: session.log

theorem Tidy.honours (h : session.Tidy .orderly) {loan : Loan} (hmem : loan ∈ session.loans)
    (hmode : loan.mode = .exclusive) : session.Honours loan := by
  obtain ⟨howner, hpeek⟩ := h.lent nofun loan hmem hmode
  refine ⟨hpeek, LockTable.mode?_eq_exclusive_iff.2 howner, ?_⟩
  intro id task mode htask hcall
  obtain ⟨htasks, rfl⟩ := task?_mem htask
  have hsuits := h.suits task htasks
  have hoperation := (hcall ▸ hsuits.suits).eq_of_get
  have hpage : task.operation.request.page = loan.page := by rw [hoperation]
  have htx : loan.tx = task.call.tx := by rw [hcall]; rfl
  have hissued : task.wait = .issued := by
    cases hwait : task.wait with
    | issued => rfl
    | blocked budget woken =>
        have := hsuits.blocked hwait nofun
        rw [hpage, ← htx] at this
        exact absurd howner this
    | reading page => exact absurd hpage.symm (hsuits.unlent hwait nofun loan hmem htx hmode)
  refine ⟨hissued, ?_⟩
  rw [step_evaluate htask hissued]
  change (session.evaluate task).log = _
  cases hbudget : Budget.start session.pool.locks.policy session.now with
  | error failure =>
      rw [evaluate_of_failure hbudget, hoperation]
      rfl
  | ok budget =>
      have hfree : (session.withLocks (session.pool.locks.enter
          task.operation.request.tx)).pool.locks.table.blockers task.operation.request = [] := by
        refine LockTable.blockers_of_ownedBy h.tidy.compatible ?_
        rw [hoperation]
        exact howner
      rw [evaluate_of_budget hbudget, attempt_of_free hfree,
        granted_of_resident (hoperation ▸ nofun) (hpage ▸ hpeek), hoperation]
      rfl

/-- **Writers keep their pages.** However calls interleave, whatever is loaded, evicted, flushed,
inserted or deleted, and whatever fails: as long as a transaction has neither ended nor given back a
page that it got for writing, the cache holds the very object that it got, and it gets no other. -/
theorem writer_keeps_page (h : session.Reachable .orderly) {loan : Loan}
    (hloan : loan ∈ session.loans) (hmode : loan.mode = .exclusive) : session.Honours loan :=
  h.tidy.honours hloan hmode

/-- In a pool with one place, a reader fails for want of room beside a writer, the page is flushed,
and the writer asks for it again. -/
def crowding : List Event :=
  [.start 0 (.get 1 ⟨0, 0⟩ .exclusive), .evaluate 0, .start 1 (.get 2 ⟨0, 1⟩ .shared), .evaluate 1,
    .command .flushAll, .start 2 (.get 1 ⟨0, 0⟩ .shared)]

theorem writer_keeps_page_crowding :
    let session := (ofPool .onePlace 0).run crowding
    session.outcome? 1 = some ⟨.error (.error (.noVictim 1)), none⟩ ∧
      session.Honours ⟨1, ⟨0, 0⟩, .exclusive, 0⟩ := by
  have hfollows : (ofPool .onePlace 0).Follows crowding := by decide_cbv
  refine ⟨by cbv, writer_keeps_page (hfollows.reachable Pool.onePlace_ready .orderly) ?_ rfl⟩
  decide_cbv

end Session

end PagePool
