import PagePool.Proofs.Session.History
import PagePool.Proofs.Session.Stretch

/-!
# Transactions under way

Whoever has a call under way or holds a lock has begun and not ended. When all have ended, no page
is locked.
-/

namespace PagePool

open LockRecord Standing Pool

namespace Session

structure Runs (session : Session) (active : TxId → Bool) : Prop where
  calls : ∀ task ∈ session.tasks, active task.call.tx = true
  locks : ∀ {id tx}, HeldBy (session.pool.locks.table.records id) tx → active tx = true

variable {session : Session} {active : TxId → Bool} {event : Event} {call : Call} {tx : TxId}

theorem active_activate (hcall : session.call? event = some call) (hactive : active tx = true) :
    event.activate active tx = true := by
  cases event with
  | start id started =>
      by_cases htx : tx = started.tx
      · rw [htx]
        exact Function.update_self ..
      · exact (Function.update_of_ne htx ..).trans hactive
  | command command => cases hcall
  | _ => exact hactive

/-- A call that is moved on belongs to a transaction under way. -/
theorem Runs.active_of_call (h : session.Runs active) (hcall : session.call? event = some call) :
    event.activate active call.tx = true := by
  rcases started_or_task hcall with ⟨id, rfl⟩ | ⟨task, hmem, rfl⟩
  · exact Function.update_self ..
  · exact active_activate hcall (h.calls task hmem)

theorem Runs.advance (h : session.Runs active) (hsession : session.Sound)
    (hroom : session.HasRoom event) (hpermits : session.Permits event)
    (hcall : session.call? event = some call) :
    (session.step event).Runs (event.activate active) := by
  have hactive := h.active_of_call hcall
  have hkept : ∀ {task : Task}, (∃ old ∈ session.tasks,
      old.call = task.call ∧ old.operation = task.operation) →
      event.activate active task.call.tx = true := by
    rintro task ⟨old, hold, hsame, _⟩
    rw [← hsame]
    exact active_activate hcall (h.calls old hold)
  refine ⟨fun task hmem => ?_, fun {id tx} hheld => ?_⟩
  · cases hsession.stretch hpermits hcall with
    | waits _ htasks => exact hkept (htasks task hmem)
    | asks _ _ htasks =>
        rcases htasks task hmem with ⟨hsame, _⟩ | ⟨_, hold⟩
        · rwa [hsame]
        · exact hkept hold
    | ends _ _ htasks => exact hkept (htasks task hmem).2
  · by_cases htx : tx = call.tx
    · rwa [htx]
    · have hevolves := hsession.evolves hroom hpermits hcall
      exact active_activate hcall (h.locks (((hevolves.moves id).heldBy_iff htx).1 hheld))

theorem Runs.step (h : session.Runs active) (hsession : session.Sound)
    (hroom : session.HasRoom event) (hpermits : session.Permits event) :
    (session.step event).Runs (event.activate active) := by
  cases hcall : session.call? event with
  | some call => exact h.advance hsession hroom hpermits hcall
  | none =>
      have htasks : ∀ task ∈ (session.step event).tasks, active task.call.tx = true := by
        intro task hmem
        obtain ⟨old, hold, hsame, _⟩ := (step_of_call_eq_none hcall).1 task hmem
        rw [← hsame]
        exact h.calls old hold
      have hserved : session.actor? event = none → ∀ {id tx},
          HeldBy ((session.step event).pool.locks.table.records id) tx → active tx = true := by
        intro hactor id tx hheld
        -- the moves can be put down to anybody, so to somebody other than the holder
        have hserves := hsession.serves hroom hpermits hactor (tx + 1)
        exact h.locks (((hserves.moves id).heldBy_iff (Nat.succ_ne_self tx).symm).1 hheld)
      cases event with
      | command command =>
          cases command with
          | read | flushPage | flushTransaction | flushAll => exact ⟨htasks, hserved rfl⟩
          | mark | discardPage | completeLocks => cases hpermits
          | write handle writer offset chunk =>
              refine ⟨htasks, fun {id tx} hheld => ?_⟩
              have hwritable : session.Writable handle writer := hpermits
              obtain ⟨_, _, loan, hmem, rfl, hmode, _⟩ := hwritable
              by_cases htx : tx = loan.tx
              · rw [htx]
                exact h.locks (hsession.loans_sound loan hmem hmode).1.heldBy
              · cases (hsession.step hroom hpermits).2 with
                | finish hevent => cases hevent
                | release hevent => cases hevent
                | act _ hactor _ hevolves =>
                    cases hactor
                    exact h.locks (((hevolves.moves id).heldBy_iff htx).1 hheld)
                | serve hactor => cases hactor
          | release releaser page =>
              refine ⟨htasks, fun {id tx} hheld => ?_⟩
              have hstanding := (hsession.releases hpermits).standing_eq id
              change HeldBy (Pool.standing _ id).records tx at hheld
              rw [hstanding] at hheld
              split at hheld
              · exact h.locks (heldBy_filter_ne.1 hheld).1
              · exact h.locks hheld
          | finish ending finisher =>
              obtain ⟨_, hfinishes⟩ := hsession.finishes hroom hpermits
              refine ⟨fun task hmem => ?_, fun {id tx} hheld => ?_⟩
              · obtain ⟨old, hold, hsame, _⟩ := (step_of_call_eq_none hcall).1 task hmem
                have hne : task.call.tx ≠ finisher := hsame ▸ hpermits old hold
                exact (Function.update_of_ne hne ..).trans (htasks task hmem)
              · obtain ⟨hheld, hne⟩ := (hfinishes.heldBy_iff id).1 hheld
                exact (Function.update_of_ne hne ..).trans (h.locks hheld)
      | start => cases hcall
      | evaluate | wake | load => exact ⟨htasks, hserved (Option.map_eq_none_iff.2 hcall)⟩

theorem Runs.start {pool : Pool} (hready : pool.Ready) (now : Nat) :
    (ofPool pool now).Runs fun _ => false where
  calls task hmem := by cases hmem
  locks {id tx} hheld := by
    have hrecords : (ofPool pool now).pool.locks.table.records id = [] := hready.unlocked id
    rw [hrecords] at hheld
    obtain ⟨_, hmem, _⟩ := hheld
    cases hmem

theorem Follows.runs {events : List Event} (h : session.Follows events) (hsession : session.Sound)
    (hruns : session.Runs active) : (session.run events).Runs (Event.activateAll events active) := by
  induction events generalizing session active with
  | nil => exact hruns
  | cons event rest ih =>
      obtain ⟨hroom, hpermits, hrest⟩ := h
      exact ih hrest (hsession.step hroom hpermits).1 (hruns.step hsession hroom hpermits)

end Session

end PagePool
