import Mathlib.Logic.Function.Basic
import PagePool.Proofs.Lock.Run
import PagePool.Proofs.WaitFor

/-!
# Who waits for whom

A docket is a lock manager together with the requests under way, one at most for each transaction.
Edges of the wait-for graph belong to blocked requests, and lead to transactions that had locks at
the time; a transaction that completes takes the edges to it along. Edges that would close a cycle
are never left behind, so no state of a docket has one.
-/

namespace PagePool

open LockRecord WaitForGraph Function

/-- A lock request under way. Its first evaluation gives it a budget, with which it is blocked. -/
structure Petition where
  page : PageId
  mode : LockMode
  budget? : Option Budget
  deriving DecidableEq, Repr

structure Docket where
  manager : LockManager
  pending : TxId → Option Petition
  /-- Transactions that have completed and been granted nothing since. -/
  gone : TxId → Bool

namespace Docket

def new (policy : LockPolicy) (scatter : Scatter) : Docket :=
  { manager := .new policy scatter, pending := fun _ => none, gone := fun _ => false }

/-- What becomes of a request. -/
def rule (docket : Docket) (request : Request) (budget : Budget) : Ruling → Docket
  | .granted =>
      { docket with
        pending := update docket.pending request.tx none
        gone := update docket.gone request.tx false }
  | .wait =>
      let petition := { page := request.page, mode := request.mode, budget? := some budget }
      { docket with pending := update docket.pending request.tx (some petition) }
  | .refused _ => { docket with pending := update docket.pending request.tx none }

def attempt (docket : Docket) (request : Request) (budget : Budget) (now : Nat) : Docket :=
  let (ruling, manager) := docket.manager.attempt request budget now
  { docket with manager }.rule request budget ruling

/-- The first evaluation of a request. One whose deadline cannot be told is over. -/
def evaluate (docket : Docket) (request : Request) (now : Nat) : Docket :=
  let docket := { docket with manager := docket.manager.enter request.tx }
  match Budget.start docket.manager.policy now with
  | .ok budget => docket.attempt request budget now
  | .error _ => { docket with pending := update docket.pending request.tx none }

inductive Act where
  | issue (request : Request)
  | evaluate (tx : TxId) (now : Nat)
  /-- A blocked request is evaluated again, woken or after its full time. -/
  | wake (tx : TxId) (timedOut : Bool) (now : Nat)
  | release (tx : TxId) (page : PageId)
  | complete (tx : TxId)

/-- A transaction with a request under way issues no other one and does not complete. -/
def act (docket : Docket) : Act → Docket
  | .issue request =>
      match docket.pending request.tx with
      | some _ => docket
      | none =>
          let petition := { page := request.page, mode := request.mode, budget? := none }
          { docket with
            manager := docket.manager.issue request.tx
            pending := update docket.pending request.tx (some petition) }
  | .evaluate tx now =>
      match docket.pending tx with
      | some { page, mode, budget? := none } => docket.evaluate { tx, page, mode } now
      | _ => docket
  | .wake tx timedOut now =>
      match docket.pending tx with
      | some { page, mode, budget? := some budget } =>
          docket.attempt { tx, page, mode } (budget.afterWait timedOut) now
      | _ => docket
  | .release tx page => { docket with manager := (docket.manager.release tx page).2 }
  | .complete tx =>
      match docket.pending tx with
      | some _ => docket
      | none =>
          { docket with
            manager := (docket.manager.complete tx).2
            gone := update docket.gone tx true }

def run (docket : Docket) (acts : List Act) : Docket :=
  acts.foldl act docket

/-- The transaction has a request that nobody has evaluated. -/
def Issued (docket : Docket) (tx : TxId) : Prop :=
  ∃ petition, docket.pending tx = some petition ∧ petition.budget? = none

def Blocked (docket : Docket) (tx : TxId) : Prop :=
  ∃ petition budget, docket.pending tx = some petition ∧ petition.budget? = some budget

structure Sound (docket : Docket) : Prop where
  acyclic : docket.manager.graph.Acyclic
  blocked : ∀ tx other, docket.manager.graph.WaitsFor tx other → docket.Blocked tx
  issued : ∀ tx ∈ docket.manager.graph.undecided, docket.Issued tx
  /-- Who is gone has no locks, and nobody waits for it. -/
  unlocked : ∀ tx, docket.gone tx = true →
    ∀ page, ¬HeldBy (docket.manager.table.records page) tx
  forgotten : ∀ tx, docket.gone tx = true → ∀ other, ¬docket.manager.graph.WaitsFor other tx

variable {docket : Docket}

theorem Issued.not_blocked {tx : TxId} (h : docket.Issued tx) : ¬docket.Blocked tx := by
  rintro ⟨petition, budget, hpending, hbudget⟩
  obtain ⟨other, hother, hnone⟩ := h
  rw [hpending, Option.some.injEq] at hother
  subst hother
  rw [hnone] at hbudget
  cases hbudget

theorem sound_new (policy : LockPolicy) (scatter : Scatter) : (new policy scatter).Sound where
  acyclic := acyclic_empty
  blocked tx other hedge := by simp [new, LockManager.new, WaitForGraph.WaitsFor] at hedge
  issued tx hmem := by simp [new, LockManager.new, WaitForGraph.empty] at hmem
  unlocked tx hgone := by simp [new] at hgone
  forgotten tx hgone := by simp [new] at hgone

section Attempt

variable {request : Request}

/-- Other transactions are blocked or not as before. -/
theorem blocked_update_of_ne {tx other : TxId} (hne : tx ≠ other) (petition? : Option Petition)
    {manager : LockManager} {gone : TxId → Bool} :
    (Docket.mk manager (update docket.pending other petition?) gone).Blocked tx ↔
      docket.Blocked tx := by
  simp only [Blocked, update_of_ne hne]

theorem issued_update_of_ne {tx other : TxId} (hne : tx ≠ other) (petition? : Option Petition)
    {manager : LockManager} {gone : TxId → Bool} :
    (Docket.mk manager (update docket.pending other petition?) gone).Issued tx ↔
      docket.Issued tx := by
  simp only [Issued, update_of_ne hne]

/-- A request that is over, without a lock or with one. -/
theorem Sound.over (h : docket.Sound) (hundecided : request.tx ∉ docket.manager.graph.undecided) :
    Sound { docket with
      manager := { docket.manager with graph := docket.manager.graph.removeWaiter request.tx }
      pending := update docket.pending request.tx none } where
  acyclic := h.acyclic.removeWaiter request.tx
  blocked tx other hedge := by
    obtain ⟨hedge, hne⟩ := waitsFor_removeWaiter_iff.1 hedge
    exact (blocked_update_of_ne hne none).2 (h.blocked tx other hedge)
  issued tx hmem := by
    have hne : tx ≠ request.tx := fun heq => hundecided (heq ▸ hmem)
    exact (issued_update_of_ne hne none).2 (h.issued tx hmem)
  unlocked := h.unlocked
  forgotten tx hgone other hedge :=
    h.forgotten tx hgone other (waitsFor_removeWaiter_iff.1 hedge).1

theorem gone_of_update {gone : TxId → Bool} {tx other : TxId}
    (h : update gone other false tx = true) : tx ≠ other ∧ gone tx = true := by
  simpa [update_apply] using h

theorem Sound.grant (h : docket.Sound) (hfree : docket.manager.table.blockers request = []) :
    Sound { docket with
      manager := { docket.manager with table := docket.manager.table.grant request }
      gone := update docket.gone request.tx false } where
  acyclic := h.acyclic
  blocked := h.blocked
  issued := h.issued
  unlocked tx hgone page hheld := by
    obtain ⟨hne, hgone⟩ := gone_of_update hgone
    by_cases hpage : page = request.page
    · subst hpage
      rcases (LockTable.heldBy_grant hfree tx).1 hheld with hheld | heq
      · exact h.unlocked tx hgone _ hheld
      · exact hne heq
    · rw [LockTable.records_grant_of_ne hpage] at hheld
      exact h.unlocked tx hgone page hheld
  forgotten tx hgone := h.forgotten tx (gone_of_update hgone).2

/-- A request that waits has edges to those who hold its page. -/
theorem Sound.wait (h : docket.Sound) (hundecided : request.tx ∉ docket.manager.graph.undecided)
    (hnone : (docket.manager.graph.setEdges request.tx
      (docket.manager.table.blockers request)).findDeadlock docket.manager.scatter.order
        request.tx = none) (budget : Budget) :
    Sound { docket with
      manager := { docket.manager with
        graph := docket.manager.graph.setEdges request.tx (docket.manager.table.blockers request) }
      pending := update docket.pending request.tx
        (some { page := request.page, mode := request.mode, budget? := some budget }) } where
  acyclic := h.acyclic.setEdges docket.manager.scatter.order_perm hnone
  blocked tx other hedge := by
    by_cases heq : tx = request.tx
    · subst heq
      exact ⟨_, budget, update_self .., rfl⟩
    · have hold := (waitsFor_setEdges_of_ne heq).1 hedge
      exact (blocked_update_of_ne heq _).2 (h.blocked tx other hold)
  issued tx hmem := by
    have hne : tx ≠ request.tx := fun heq => hundecided (heq ▸ hmem)
    exact (issued_update_of_ne hne _).2 (h.issued tx hmem)
  unlocked := h.unlocked
  forgotten tx hgone other hedge := by
    by_cases heq : other = request.tx
    · subst heq
      have hheld := LockTable.heldBy_of_mem_blockers (waitsFor_setEdges_self.1 hedge)
      exact h.unlocked tx hgone _ hheld
    · exact h.forgotten tx hgone other ((waitsFor_setEdges_of_ne heq).1 hedge)

theorem Sound.attempt (h : docket.Sound)
    (hundecided : request.tx ∉ docket.manager.graph.undecided) (budget : Budget) (now : Nat) :
    (docket.attempt request budget now).Sound := by
  have hattempted := docket.manager.attempted_attempt request budget now
  simp only [Docket.attempt]
  generalize (docket.manager.attempt request budget now).1 = ruling,
    (docket.manager.attempt request budget now).2 = manager at hattempted
  cases hattempted with
  | granted hfree => exact (h.over hundecided).grant hfree
  | wait hblocked hnone hpatient => exact h.wait hundecided hnone budget
  | cycle chain hblocked hfound => exact h.over hundecided
  | timeout hblocked hnone hexhausted => exact h.over hundecided

end Attempt

theorem Sound.enter (h : docket.Sound) (tx : TxId) :
    Sound { docket with manager := docket.manager.enter tx } where
  acyclic := h.acyclic
  blocked := h.blocked
  issued other hmem := h.issued other (List.mem_of_mem_filter hmem)
  unlocked := h.unlocked
  forgotten := h.forgotten

theorem not_mem_undecided_enter (manager : LockManager) (tx : TxId) :
    tx ∉ (manager.enter tx).graph.undecided := by
  simp [LockManager.enter, WaitForGraph.unmark]

theorem Sound.issue (h : docket.Sound) {request : Request}
    (hfree : docket.pending request.tx = none) :
    Sound { docket with
      manager := docket.manager.issue request.tx
      pending := update docket.pending request.tx
        (some { page := request.page, mode := request.mode, budget? := none }) } where
  acyclic := h.acyclic
  blocked tx other hedge := by
    have hblocked := h.blocked tx other hedge
    have hne : tx ≠ request.tx := by
      rintro rfl
      obtain ⟨petition, _, hpending, _⟩ := hblocked
      rw [hfree] at hpending
      cases hpending
    exact (blocked_update_of_ne hne _).2 hblocked
  issued tx hmem := by
    by_cases heq : tx = request.tx
    · subst heq
      exact ⟨_, update_self .., rfl⟩
    · have hold : tx ∈ docket.manager.graph.undecided :=
        List.mem_of_mem_filter ((List.mem_cons.1 hmem).resolve_left heq)
      exact (issued_update_of_ne heq _).2 (h.issued tx hold)
  unlocked := h.unlocked
  forgotten := h.forgotten

/-- A request whose first evaluation fails to get a deadline. -/
theorem Sound.drop (h : docket.Sound) {tx : TxId} (hissued : docket.Issued tx)
    (hundecided : tx ∉ docket.manager.graph.undecided) :
    Sound { docket with pending := update docket.pending tx none } where
  acyclic := h.acyclic
  blocked other target hedge := by
    have hblocked := h.blocked other target hedge
    have hne : other ≠ tx := by
      rintro rfl
      exact hissued.not_blocked hblocked
    exact (blocked_update_of_ne hne none).2 hblocked
  issued other hmem := by
    have hne : other ≠ tx := fun heq => hundecided (heq ▸ hmem)
    exact (issued_update_of_ne hne none).2 (h.issued other hmem)
  unlocked := h.unlocked
  forgotten := h.forgotten

theorem Sound.evaluate (h : docket.Sound) {request : Request} (hissued : docket.Issued request.tx)
    (now : Nat) : (docket.evaluate request now).Sound := by
  have hentered := h.enter request.tx
  have hundecided := not_mem_undecided_enter docket.manager request.tx
  unfold Docket.evaluate
  dsimp only
  split
  · exact hentered.attempt hundecided _ now
  · exact hentered.drop hissued hundecided

theorem heldBy_of_release {manager : LockManager} {released page : PageId} {tx other : TxId}
    (h : HeldBy ((manager.release other released).2.table.records page) tx) :
    HeldBy (manager.table.records page) tx := by
  rw [LockManager.table_release, LockTable.records_release] at h
  split at h
  · exact (heldBy_filter_ne.1 h).1
  · exact h

theorem Sound.release (h : docket.Sound) (tx : TxId) (page : PageId) :
    Sound { docket with manager := (docket.manager.release tx page).2 } where
  acyclic := by
    rw [LockManager.graph_release]
    exact h.acyclic
  blocked waiter target hedge := by
    rw [LockManager.graph_release] at hedge
    exact h.blocked waiter target hedge
  issued waiter hmem := by
    rw [LockManager.graph_release] at hmem
    exact h.issued waiter hmem
  unlocked other hgone place hheld := h.unlocked other hgone place (heldBy_of_release hheld)
  forgotten other hgone waiter hedge := by
    rw [LockManager.graph_release] at hedge
    exact h.forgotten other hgone waiter hedge

theorem gone_of_update_true {gone : TxId → Bool} {tx other : TxId}
    (h : update gone other true tx = true) (hne : tx ≠ other) : gone tx = true := by
  rwa [update_of_ne hne] at h

/-- Who completes leaves no locks and no edges behind. -/
theorem Sound.complete (h : docket.Sound) (tx : TxId) :
    Sound { docket with
      manager := (docket.manager.complete tx).2
      gone := update docket.gone tx true } where
  acyclic := h.acyclic.removeTransaction tx
  blocked waiter target hedge := h.blocked waiter target (waitsFor_removeTransaction_iff.1 hedge).1
  issued waiter hmem := h.issued waiter (List.mem_of_mem_filter hmem)
  unlocked other hgone page hheld := by
    have hrecords : HeldBy ((docket.manager.table.complete tx).records page) other := hheld
    rw [LockTable.records_complete] at hrecords
    obtain ⟨hbefore, hne⟩ := heldBy_filter_ne.1 hrecords
    exact h.unlocked other (gone_of_update_true hgone hne) page hbefore
  forgotten other hgone waiter hedge := by
    obtain ⟨hbefore, _, hne⟩ := waitsFor_removeTransaction_iff.1 hedge
    exact h.forgotten other (gone_of_update_true hgone hne) waiter hbefore

/-- One case for each act. -/
theorem Sound.act (h : docket.Sound) (act : Act) : (docket.act act).Sound := by
  cases act with
  | issue request =>
      simp only [Docket.act]
      split
      · exact h
      · next hfree => exact h.issue hfree
  | evaluate tx now =>
      simp only [Docket.act]
      split
      · next hpending => exact h.evaluate ⟨_, hpending, rfl⟩ now
      · exact h
  | wake tx timedOut now =>
      simp only [Docket.act]
      split
      · next page mode budget hpending =>
        refine h.attempt (fun hundecided => ?_) _ now
        exact (h.issued tx hundecided).not_blocked ⟨_, budget, hpending, rfl⟩
      · exact h
  | release tx page => exact h.release tx page
  | complete tx =>
      simp only [Docket.act]
      split
      · exact h
      · exact h.complete tx

theorem Sound.run (h : docket.Sound) (acts : List Act) : (docket.run acts).Sound := by
  induction acts generalizing docket with
  | nil => exact h
  | cons act acts ih => exact ih (h.act act)

/-- **The wait-for graph never keeps a cycle.** After any acts: nobody waits for himself, however
long the way; who has edges has a blocked request, and none that is yet to be evaluated; every list
of targets that is kept has targets; and nobody waits for a transaction that has completed and been
granted nothing since. -/
theorem acyclic_run (policy : LockPolicy) (scatter : Scatter) (acts : List Act) :
    let docket := (new policy scatter).run acts
    let graph := docket.manager.graph
    (∀ tx, ¬Relation.TransGen graph.WaitsFor tx tx) ∧
      (∀ tx, graph.isWaiter tx = true → docket.Blocked tx) ∧
      (∀ tx ∈ graph.undecided, graph.isWaiter tx = false) ∧
      (∀ entry ∈ graph.edges.entries, entry.2 ≠ []) ∧
      (∀ tx, docket.gone tx = true → ∀ other, ¬graph.WaitsFor other tx) := by
  intro docket graph
  have hsound : docket.Sound := (sound_new policy scatter).run acts
  have hblocked : ∀ tx, graph.isWaiter tx = true → docket.Blocked tx := fun tx hwaiter => by
    obtain ⟨other, hedge⟩ := List.exists_mem_of_ne_nil _ (isWaiter_iff.1 hwaiter)
    exact hsound.blocked tx other hedge
  refine ⟨hsound.acyclic, hblocked, fun tx hmem => ?_, graph.edges.values_ne_nil, hsound.forgotten⟩
  refine Bool.eq_false_iff.2 fun hwaiter => ?_
  exact (hsound.issued tx hmem).not_blocked (hblocked tx hwaiter)

end Docket

end PagePool
