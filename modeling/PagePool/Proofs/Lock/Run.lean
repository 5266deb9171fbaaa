import PagePool.Proofs.Lock.Table

/-!
# Runs of a lock manager

What one attempt at a request can do is said once, by `Attempted`. A lock manager keeps the records
of every page compatible whatever is asked of it: requests of any transactions, evaluated in any
order and as often as one likes, granted or not, among releases and completions.
-/

namespace PagePool

open LockRecord

namespace LockTable

variable {table : LockTable} {request : Request} {tx : TxId} {page : PageId} {mode : LockMode}

theorem mem_blockers_iff {other : TxId} :
    other ∈ table.blockers request ↔
      ∃ record ∈ table.records request.page, conflicts request record = true ∧
        record.tx = other := by
  simp only [blockers, List.mem_eraseDups, List.mem_map, List.mem_filter, and_assoc]

theorem heldBy_of_mem_blockers {other : TxId} (h : other ∈ table.blockers request) :
    HeldBy (table.records request.page) other := by
  obtain ⟨record, hmem, _, htx⟩ := mem_blockers_iff.1 h
  exact ⟨record, hmem, htx⟩

section Records

variable (h : Compatible page (table.records page))
include h

/-- The lock of a transaction on a page is the one that its record there tells of. -/
theorem mode?_eq_some_iff :
    table.mode? tx page = some mode ↔ LockRecord.mk tx mode page ∈ table.records page := by
  have hown : OwnedBy (table.records page) tx ↔
      LockRecord.mk tx .exclusive page ∈ table.records page := by
    constructor
    · rintro ⟨⟨_, _, place⟩, hmem, rfl, rfl⟩
      obtain rfl : place = page := h.page_eq _ hmem
      exact hmem
    · exact fun hmem => ⟨_, hmem, rfl, rfl⟩
  cases mode with
  | exclusive => rw [mode?_eq_exclusive_iff, hown]
  | shared =>
      have hmode : table.mode? tx page = some .shared ↔
          table.holds tx page = true ∧ table.mode? tx page ≠ some .exclusive := by
        rw [holds]
        rcases table.mode? tx page with _ | _ | _ <;> simp
      rw [hmode, holds_iff, Ne, mode?_eq_exclusive_iff, hown]
      constructor
      · rintro ⟨⟨⟨_, mode, place⟩, hmem, rfl⟩, hnot⟩
        obtain rfl : place = page := h.page_eq _ hmem
        cases mode with
        | shared => exact hmem
        | exclusive => exact absurd hmem hnot
      · intro hmem
        refine ⟨⟨_, hmem, rfl⟩, fun hexclusive => ?_⟩
        rw [h.alone _ hexclusive rfl] at hmem
        simp at hmem

/-- The locks on a page are all shared, or there is one, and it is exclusive. -/
theorem shared_or_exclusive :
    (∀ record ∈ table.records page, record.mode = .shared) ∨
      ∃ tx, table.records page = [.mk tx .exclusive page] := by
  by_cases hexclusive : ∃ record ∈ table.records page, record.mode = .exclusive
  · obtain ⟨⟨tx, _, place⟩, hmem, rfl⟩ := hexclusive
    obtain rfl : place = page := h.page_eq _ hmem
    exact .inr ⟨tx, h.alone _ hmem rfl⟩
  · refine .inl fun record hmem => ?_
    cases hmode : record.mode with
    | shared => rfl
    | exclusive => exact absurd ⟨record, hmem, hmode⟩ hexclusive

end Records

end LockTable

namespace LockManager

/-- All that an attempt at a request can do: the request is granted, or it waits, or it is given
up, because its wait closes a cycle or because it has no patience left. -/
inductive Attempted (manager : LockManager) (request : Request) (budget : Budget) (now : Nat) :
    Ruling → LockManager → Prop where
  | granted (hfree : manager.table.blockers request = []) :
      Attempted manager request budget now .granted
        { manager with
          table := manager.table.grant request
          graph := manager.graph.removeWaiter request.tx }
  | wait (hblocked : manager.table.blockers request ≠ [])
      (hnone : (manager.graph.setEdges request.tx (manager.table.blockers request)).findDeadlock
        manager.scatter.order request.tx = none)
      (hpatient : budget.isExhausted manager.policy now = false) :
      Attempted manager request budget now .wait
        { manager with
          graph := manager.graph.setEdges request.tx (manager.table.blockers request) }
  | cycle (chain : List TxId) (hblocked : manager.table.blockers request ≠ [])
      (hfound : (manager.graph.setEdges request.tx (manager.table.blockers request)).findDeadlock
        manager.scatter.order request.tx = some chain) :
      Attempted manager request budget now
        (.refused (.deadlock request (manager.table.blockers request) chain))
        { manager with graph := manager.graph.removeWaiter request.tx }
  | timeout (hblocked : manager.table.blockers request ≠ [])
      (hnone : (manager.graph.setEdges request.tx (manager.table.blockers request)).findDeadlock
        manager.scatter.order request.tx = none)
      (hexhausted : budget.isExhausted manager.policy now = true) :
      Attempted manager request budget now
        (.refused (.lockTimeout budget.retries request (manager.table.blockers request)))
        { manager with graph := manager.graph.removeWaiter request.tx }

theorem attempted_attempt (manager : LockManager) (request : Request) (budget : Budget)
    (now : Nat) :
    Attempted manager request budget now (manager.attempt request budget now).1
      (manager.attempt request budget now).2 := by
  have hforget := fun (graph : WaitForGraph) targets =>
    graph.removeWaiter_setEdges request.tx targets
  cases hblockers : manager.table.blockers request with
  | nil =>
      have hgranted : manager.attempt request budget now = (.granted,
          { manager with
            table := manager.table.grant request
            graph := manager.graph.removeWaiter request.tx }) := by
        simp only [attempt, evaluate, hblockers, stopWaiting]
      rw [hgranted]
      exact .granted hblockers
  | cons blocker rest =>
      have hblocked : manager.table.blockers request ≠ [] := by simp [hblockers]
      cases hsearch : (manager.graph.setEdges request.tx
          (manager.table.blockers request)).findDeadlock manager.scatter.order request.tx with
      | some chain =>
          have hcycle : manager.attempt request budget now =
              (.refused (.deadlock request (manager.table.blockers request) chain),
                { manager with graph := manager.graph.removeWaiter request.tx }) := by
            rw [← hforget manager.graph (manager.table.blockers request)]
            simp only [hblockers] at hsearch ⊢
            simp only [attempt, evaluate, hblockers, hsearch, stopWaiting]
          rw [hcycle]
          exact .cycle chain hblocked hsearch
      | none =>
          cases hbudget : budget.isExhausted manager.policy now with
          | false =>
              have hwait : manager.attempt request budget now = (.wait,
                  { manager with
                    graph := manager.graph.setEdges request.tx
                      (manager.table.blockers request) }) := by
                simp only [hblockers] at hsearch ⊢
                simp [attempt, evaluate, hblockers, hsearch, hbudget]
              rw [hwait]
              exact .wait hblocked hsearch hbudget
          | true =>
              have htimeout : manager.attempt request budget now =
                  (.refused (.lockTimeout budget.retries request (manager.table.blockers request)),
                    { manager with graph := manager.graph.removeWaiter request.tx }) := by
                rw [← hforget manager.graph (manager.table.blockers request)]
                simp only [hblockers] at hsearch ⊢
                simp [attempt, evaluate, hblockers, hsearch, hbudget, stopWaiting]
              rw [htimeout]
              exact .timeout hblocked hsearch hbudget

theorem table_release (manager : LockManager) (tx : TxId) (page : PageId) :
    (manager.release tx page).2.table = manager.table.release tx page := by
  unfold release
  split <;> rfl

theorem graph_release (manager : LockManager) (tx : TxId) (page : PageId) :
    (manager.release tx page).2.graph = manager.graph := by
  unfold release
  split <;> rfl

/-- What is asked of a lock manager. -/
inductive Act where
  | issue (tx : TxId)
  | evaluate (request : Request) (now : Nat)
  | reevaluate (request : Request) (budget : Budget) (now : Nat)
  | release (tx : TxId) (page : PageId)
  | complete (tx : TxId)

/-- A first evaluation whose deadline cannot be told comes to nothing. -/
def act (manager : LockManager) : Act → LockManager
  | .issue tx => manager.issue tx
  | .evaluate request now =>
      let manager := manager.enter request.tx
      match Budget.start manager.policy now with
      | .ok budget => (manager.attempt request budget now).2
      | .error _ => manager
  | .reevaluate request budget now => (manager.attempt request budget now).2
  | .release tx page => (manager.release tx page).2
  | .complete tx => (manager.complete tx).2

def run (manager : LockManager) (acts : List Act) : LockManager :=
  acts.foldl act manager

theorem sound_attempt {manager : LockManager} (h : manager.table.Sound) (request : Request)
    (budget : Budget) (now : Nat) : (manager.attempt request budget now).2.table.Sound := by
  have hattempted := manager.attempted_attempt request budget now
  generalize (manager.attempt request budget now).1 = ruling,
    (manager.attempt request budget now).2 = after at hattempted
  cases hattempted with
  | granted hfree => exact h.grant hfree
  | wait => exact h
  | cycle => exact h
  | timeout => exact h

theorem sound_act {manager : LockManager} (h : manager.table.Sound) (act : Act) :
    (manager.act act).table.Sound := by
  cases act with
  | issue tx => exact h
  | evaluate request now =>
      simp only [LockManager.act]
      split
      · have hentered : (manager.enter request.tx).table.Sound := h
        exact sound_attempt hentered request _ now
      · exact h
  | reevaluate request budget now => exact sound_attempt h request budget now
  | release tx page =>
      rw [LockManager.act, table_release]
      exact h.release tx page
  | complete tx => exact h.complete tx

theorem sound_run {manager : LockManager} (h : manager.table.Sound) (acts : List Act) :
    (manager.run acts).table.Sound := by
  induction acts generalizing manager with
  | nil => exact h
  | cons act acts ih => exact ih (sound_act h act)

/-- **Mutual exclusion.** Whatever has been asked of a lock manager, the locks on a page are all
shared or there is only one, no transaction has two of them, each is filed under its own page, and
no page without locks is kept. So all that the table can be asked about a page agrees. -/
theorem exclusive_run (policy : LockPolicy) (scatter : Scatter) (acts : List Act) :
    let table := ((new policy scatter).run acts).table
    (∀ page,
      ((table.records page).map LockRecord.tx).Nodup ∧
      ((∀ record ∈ table.records page, record.mode = .shared) ∨
        ∃ tx, table.records page = [.mk tx .exclusive page]) ∧
      (∀ record ∈ table.records page, record.page = page) ∧
      (∀ tx mode, table.mode? tx page = some mode ↔
        LockRecord.mk tx mode page ∈ table.records page) ∧
      (∀ tx, table.holds tx page = true ↔ ∃ mode, table.mode? tx page = some mode) ∧
      (table.isExclusive page = true ↔ ∃ tx, table.mode? tx page = some .exclusive) ∧
      (∀ tx other, table.mode? tx page = some .exclusive → table.holds other page = true →
        other = tx)) ∧
    (∀ entry ∈ table.pages.entries, entry.2 = table.records entry.1 ∧ entry.2 ≠ []) := by
  intro table
  have hempty : (new policy scatter).table.Sound := LockTable.sound_empty
  have hsound : table.Sound := sound_run hempty acts
  refine ⟨fun page => ?_, fun entry hentry => ?_⟩
  · have hpage := hsound page
    refine ⟨hpage.nodup, LockTable.shared_or_exclusive hpage, hpage.page_eq,
      fun tx mode => LockTable.mode?_eq_some_iff hpage, fun tx => ?_, ?_, ?_⟩
    · rw [LockTable.holds, Option.isSome_iff_exists]
    · simp only [LockTable.isExclusive_iff, LockTable.mode?_eq_exclusive_iff]
    · intro tx other hmode hholds
      rw [LockTable.mode?_eq_exclusive_iff] at hmode
      rw [LockTable.holds_iff] at hholds
      exact hpage.heldBy_eq hmode hholds
  · exact ⟨(table.pages.values_eq_of_mem hentry).symm, table.pages.values_ne_nil entry hentry⟩

end LockManager

end PagePool
