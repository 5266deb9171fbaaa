import Mathlib
import PagePool.Proofs.Lock.Acquire

/-!
# The patience of a blocked request

A blocked request is given up at the first evaluation at which it has either waited in vain as often
as its policy allows, or passed its deadline. Only waits that lasted their full time count. The
deadline is the time allowed for all waits together; as long as their number fits into 32 bits, that
is their number times the length of one, and beyond that only the low 32 bits of the number enter
it.
-/

namespace PagePool

def Verdict.isBlocked : Verdict → Bool
  | .blocked _ => true
  | _ => false

namespace LockManager

variable {manager : LockManager} {request : Request} {budget : Budget} {now : Nat}
  {pauses : List Pause}

/-- A request that is blocked at each of its evaluations, while its wait closes no cycle. -/
def persists (manager : LockManager) (request : Request) : List Pause → Bool
  | [] => (manager.evaluate request).1.isBlocked
  | pause :: pauses =>
      (manager.evaluate request).1.isBlocked &&
        ((manager.evaluate request).2.run pause.acts).persists request pauses

/-- How many of the waits before an evaluation lasted their full time. Evaluations are counted
from 0. -/
def timeouts (pauses : List Pause) (evaluation : Nat) : Nat :=
  (pauses.take evaluation).countP Pause.timedOut

/-- The time at an evaluation; `now` is the time at the first. -/
def clock (now : Nat) : List Pause → Nat → Nat
  | pause :: pauses, evaluation + 1 => clock pause.now pauses evaluation
  | _, _ => now

/-- At this evaluation the request has no patience left. -/
def Exhausted (policy : LockPolicy) (budget : Budget) (now : Nat) (pauses : List Pause)
    (evaluation : Nat) : Prop :=
  policy.maxRetries ≤ budget.retries + timeouts pauses evaluation ∨
    budget.deadline ≤ clock now pauses evaluation

theorem exhausted_zero {policy : LockPolicy} :
    Exhausted policy budget now pauses 0 ↔ budget.isExhausted policy now = true := by
  have hclock : clock now pauses 0 = now := by cases pauses <;> rfl
  simp [Exhausted, timeouts, hclock, Budget.isExhausted]

theorem retries_afterWait (pause : Pause) (evaluation : Nat) :
    (budget.afterWait pause.timedOut).retries + timeouts pauses evaluation =
      budget.retries + timeouts (pause :: pauses) (evaluation + 1) := by
  simp only [timeouts, List.take_succ_cons, List.countP_cons, Budget.afterWait]
  cases pause.timedOut with
  | false => simp
  | true => simp only [if_true]; omega

theorem deadline_afterWait (timedOut : Bool) :
    (budget.afterWait timedOut).deadline = budget.deadline := by
  unfold Budget.afterWait
  split <;> rfl

/-- A wait goes over into the budget that the next evaluation has. -/
theorem exhausted_succ {policy : LockPolicy} {pause : Pause} {evaluation : Nat} :
    Exhausted policy budget now (pause :: pauses) (evaluation + 1) ↔
      Exhausted policy (budget.afterWait pause.timedOut) pause.now pauses evaluation := by
  rw [Exhausted, Exhausted, retries_afterWait, deadline_afterWait]
  rfl

theorem policy_act (manager : LockManager) (act : Act) :
    (manager.act act).policy = manager.policy := by
  cases act with
  | issue | complete => rfl
  | evaluate request now =>
      simp only [LockManager.act]
      split
      · exact policy_attempt ..
      · rfl
  | reevaluate request budget now => exact policy_attempt ..
  | release tx page => exact policy_release ..

theorem policy_run (manager : LockManager) (acts : List Act) :
    (manager.run acts).policy = manager.policy := by
  induction acts generalizing manager with
  | nil => rfl
  | cons act acts ih => exact (ih _).trans (policy_act manager act)

theorem policy_evaluate (manager : LockManager) (request : Request) :
    (manager.evaluate request).2.policy = manager.policy := by
  unfold evaluate
  split
  · rfl
  · dsimp only
    split <;> rfl

/-- What becomes of a request that is blocked is a matter of its patience. -/
theorem attempt_of_isBlocked (hblocked : (manager.evaluate request).1.isBlocked = true)
    (budget : Budget) (now : Nat) :
    ∃ blockers, manager.attempt request budget now =
      if budget.isExhausted manager.policy now then
        (.refused (.lockTimeout budget.retries request blockers),
          (manager.evaluate request).2.stopWaiting request.tx)
      else (.wait, (manager.evaluate request).2) := by
  have hpolicy := manager.policy_evaluate request
  unfold attempt
  generalize manager.evaluate request = result at hblocked hpolicy ⊢
  obtain ⟨verdict, waiting⟩ := result
  cases verdict with
  | granted | cycle => cases hblocked
  | blocked blockers =>
      refine ⟨blockers, ?_⟩
      dsimp only at hpolicy ⊢
      rw [hpolicy]

theorem await_of_exhausted (hblocked : (manager.evaluate request).1.isBlocked = true)
    (hexhausted : budget.isExhausted manager.policy now = true) :
    ∃ blockers, (manager.await request budget now pauses).outcome? =
        some (.error (.error (.lockTimeout budget.retries request blockers))) ∧
      (manager.await request budget now pauses).rest = pauses := by
  obtain ⟨blockers, hattempt⟩ := attempt_of_isBlocked hblocked budget now
  rw [if_pos hexhausted] at hattempt
  refine ⟨blockers, ?_⟩
  cases pauses with
  | nil => simp [await, hattempt, Ruling.outcome?]
  | cons pause pauses => simp [await, hattempt, Ruling.outcome?]

theorem attempt_of_patient (hblocked : (manager.evaluate request).1.isBlocked = true)
    (hpatient : ¬budget.isExhausted manager.policy now = true) :
    manager.attempt request budget now = (.wait, (manager.evaluate request).2) := by
  obtain ⟨_, hattempt⟩ := attempt_of_isBlocked hblocked budget now
  rw [hattempt, if_neg hpatient]

/-- Induction on the evaluations: one that leaves some patience hands the budget on. -/
theorem await_of_persists {evaluation : Nat} (hlast : evaluation ≤ pauses.length)
    (hblocked : manager.persists request (pauses.take evaluation) = true)
    (hpatient : ∀ earlier < evaluation, ¬Exhausted manager.policy budget now pauses earlier) :
    (Exhausted manager.policy budget now pauses evaluation →
      ∃ blockers, (manager.await request budget now pauses).outcome? =
          some (.error (.error (.lockTimeout (budget.retries + timeouts pauses evaluation) request
            blockers))) ∧
        (manager.await request budget now pauses).rest = pauses.drop evaluation) ∧
    (¬Exhausted manager.policy budget now pauses evaluation →
      (manager.await request budget now (pauses.take evaluation)).outcome? = none) := by
  induction evaluation generalizing manager budget now pauses with
  | zero =>
      have hfirst : (manager.evaluate request).1.isBlocked = true := hblocked
      rw [exhausted_zero]
      refine ⟨fun hexhausted => ?_, fun hnot => ?_⟩
      · simpa [timeouts] using await_of_exhausted hfirst hexhausted
      · simp [await, attempt_of_patient hfirst hnot, Ruling.outcome?]
  | succ evaluation ih =>
      obtain _ | ⟨pause, pauses⟩ := pauses
      · cases hlast
      obtain ⟨hfirst, hrest⟩ := Bool.and_eq_true_iff.1 hblocked
      have hnot := fun h => hpatient 0 (Nat.zero_lt_succ _) (exhausted_zero.2 h)
      have hpolicy : ((manager.evaluate request).2.run pause.acts).policy = manager.policy :=
        (policy_run ..).trans (policy_evaluate ..)
      have hearlier : ∀ earlier < evaluation,
          ¬Exhausted ((manager.evaluate request).2.run pause.acts).policy
            (budget.afterWait pause.timedOut) pause.now pauses earlier := fun earlier hlt => by
        rw [hpolicy, ← exhausted_succ]
        exact hpatient _ (Nat.succ_lt_succ hlt)
      have hnext := ih (Nat.le_of_succ_le_succ hlast) hrest hearlier
      rw [hpolicy, ← exhausted_succ, retries_afterWait] at hnext
      have hwait : ∀ rest, manager.await request budget now (pause :: rest) =
          ((manager.evaluate request).2.run pause.acts).await request
            (budget.afterWait pause.timedOut) pause.now rest := fun rest => by
        rw [await, attempt_of_patient hfirst hnot]
      rw [List.take_succ_cons, hwait, hwait]
      exact hnext

/-- As long as the retry count fits into 32 bits, each wait has its full share of the time. -/
theorem patience_eq {policy : LockPolicy} (hretries : policy.maxRetries < 1 <<< 32) :
    Budget.patience policy = policy.wait * policy.maxRetries := by
  rw [Budget.patience, Nat.mod_eq_of_lt hretries]

/-- **A blocked request is given up in time.** Take a request whose deadline can be told and that
is blocked up to some evaluation, with any acts of others before it and in its waits, woken in any
way and at any times. If its patience has lasted so far, then it ends at this very evaluation when
as many waits as its policy allows have lasted their full time, or its deadline has come; and
otherwise it waits. The deadline lies the full time for all waits after the start, provided that
the number of waits fits into 32 bits. -/
theorem gives_up_in_time (manager : LockManager) (request : Request) (acts : List Act)
    (start now : Nat) (pauses : List Pause) (evaluation : Nat) (hlast : evaluation ≤ pauses.length)
    (hstart : start + Budget.patience manager.policy < Budget.timeLimit)
    (hblocked : (((manager.issue request.tx).run acts).enter request.tx).persists request
      (pauses.take evaluation) = true)
    (hpatient : ∀ earlier < evaluation, timeouts pauses earlier < manager.policy.maxRetries ∧
      clock now pauses earlier < start + Budget.patience manager.policy) :
    (manager.policy.maxRetries ≤ timeouts pauses evaluation ∨
        start + Budget.patience manager.policy ≤ clock now pauses evaluation →
      ∃ blockers, (manager.acquire request acts start now pauses).outcome? =
          some (.error (.error (.lockTimeout (timeouts pauses evaluation) request blockers))) ∧
        (manager.acquire request acts start now pauses).rest = pauses.drop evaluation) ∧
    (timeouts pauses evaluation < manager.policy.maxRetries ∧
        clock now pauses evaluation < start + Budget.patience manager.policy →
      (manager.acquire request acts start now (pauses.take evaluation)).outcome? = none) ∧
    (manager.policy.maxRetries < 1 <<< 32 →
      Budget.patience manager.policy = manager.policy.wait * manager.policy.maxRetries) := by
  have hpolicy : (((manager.issue request.tx).run acts).enter request.tx).policy = manager.policy :=
    policy_run ..
  have hbudget : Budget.start manager.policy start =
      .ok { retries := 0, deadline := start + Budget.patience manager.policy } := if_pos hstart
  have hexhausted : ∀ evaluation, Exhausted manager.policy
      { retries := 0, deadline := start + Budget.patience manager.policy } now pauses evaluation ↔
        manager.policy.maxRetries ≤ timeouts pauses evaluation ∨
          start + Budget.patience manager.policy ≤ clock now pauses evaluation := by
    intro evaluation
    rw [Exhausted, Nat.zero_add]
  have hearlier : ∀ earlier < evaluation,
      ¬Exhausted (((manager.issue request.tx).run acts).enter request.tx).policy
        { retries := 0, deadline := start + Budget.patience manager.policy } now pauses earlier := by
    intro earlier hlt
    rw [hpolicy, hexhausted]
    have := hpatient earlier hlt
    omega
  have hawait := await_of_persists hlast hblocked hearlier
  rw [hpolicy, hexhausted, Nat.zero_add] at hawait
  unfold acquire
  simp only [hpolicy, hbudget]
  exact ⟨hawait.1, fun hstill => hawait.2 (by omega), patience_eq⟩

/-- The first transaction has an exclusive lock on a page. -/
def occupied (policy : LockPolicy) : LockManager :=
  (new policy .plain).run [.evaluate ⟨1, ⟨0, 0⟩, .exclusive⟩ 0]

/-- A third transaction comes and goes on another page, which wakes the request, and then two waits
last their full time. -/
def disturbed : List Pause :=
  [⟨[.evaluate ⟨3, ⟨0, 1⟩, .exclusive⟩ 0, .release 3 ⟨0, 1⟩], false, 4000000⟩, ⟨[], true, 14000000⟩,
    ⟨[], true, 19000000⟩]

/-- The request is given up after its second wait in vain, before its deadline. -/
theorem gives_up_in_time_disturbed :
    ∃ blockers, ((occupied (.ofMillis 2 10 1)).acquire ⟨2, ⟨0, 0⟩, .shared⟩ [] 0 0
        disturbed).outcome? =
      some (.error (.error (.lockTimeout 2 ⟨2, ⟨0, 0⟩, .shared⟩ blockers))) :=
  have hpolicy : (occupied (.ofMillis 2 10 1)).policy = .ofMillis 2 10 1 := policy_run ..
  have hpatient : ∀ earlier < 3,
      timeouts disturbed earlier < (LockPolicy.ofMillis 2 10 1).maxRetries ∧
      clock 0 disturbed earlier < 0 + Budget.patience (.ofMillis 2 10 1) := by decide
  have hended := (gives_up_in_time (occupied (.ofMillis 2 10 1)) ⟨2, ⟨0, 0⟩, .shared⟩ [] 0 0
    disturbed 3 (by decide) (by decide_cbv) (by decide_cbv) (hpolicy ▸ hpatient)).1
      (by decide_cbv)
  hended.imp fun _ h => h.1

/-- With 2 ^ 32 waits of a millisecond allowed, which is some fifty days, a request has no time at
all: it is given up at once. -/
theorem patience_wraps :
    let policy := LockPolicy.ofMillis (1 <<< 32) 1 1
    let request : Request := ⟨2, ⟨0, 0⟩, .shared⟩
    ((occupied policy).acquire request [] 0 0 []).outcome? =
        some (.error (.error (.lockTimeout 0 request [1]))) ∧
      timeouts [] 0 < policy.maxRetries ∧ clock 0 [] 0 < policy.wait * policy.maxRetries ∧
      policy.wait * policy.maxRetries < Budget.timeLimit := by
  decide_cbv

end LockManager

end PagePool
