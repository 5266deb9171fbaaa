import Mathlib
import PagePool.Proofs.Lock.Docket

/-!
# Deadlocks, real and detected

A blocked transaction awaits those who have a lock in its way, whether the wait-for graph knows or
not. The graph can lag behind the lock table both ways. A lock granted after a request has gone to
sleep adds no edge for the sleeper: but the request has it by the end of its next evaluation, so a
cycle does not survive one evaluation of each of its members. A lock released leaves the edges to
its holder where they are, and until the waiter is evaluated again a search may follow them.
-/

namespace PagePool

open LockRecord WaitForGraph Function

namespace LockTable

variable {table : LockTable} {request granted : Request} {tx : TxId} {page : PageId}

/-- The transaction has a lock in the way of a request. -/
def Obstructs (table : LockTable) (request : Request) (tx : TxId) : Prop :=
  ∃ record ∈ table.records request.page, conflicts request record = true ∧ record.tx = tx

instance (table : LockTable) (request : Request) (tx : TxId) :
    Decidable (table.Obstructs request tx) :=
  inferInstanceAs (Decidable (∃ record ∈ table.records request.page, _))

theorem obstructs_iff :
    table.Obstructs request tx ↔ tx ≠ request.tx ∧
      (OwnedBy (table.records request.page) tx ∨
        request.mode = .exclusive ∧ HeldBy (table.records request.page) tx) := by
  constructor
  · rintro ⟨record, hmem, hconflict, rfl⟩
    simp only [conflicts, Bool.and_eq_true, Bool.or_eq_true, decide_eq_true_eq] at hconflict
    obtain ⟨hne, hmode | hmode⟩ := hconflict
    · exact ⟨hne, .inr ⟨hmode, record, hmem, rfl⟩⟩
    · exact ⟨hne, .inl ⟨record, hmem, rfl, hmode⟩⟩
  · rintro ⟨hne, ⟨record, hmem, rfl, hmode⟩ | ⟨hmode, record, hmem, rfl⟩⟩
    · exact ⟨record, hmem, by simp [conflicts, hne, hmode], rfl⟩
    · exact ⟨record, hmem, by simp [conflicts, hne, hmode], rfl⟩

/-- A grant takes nobody's lock out of the way of anybody else. -/
theorem Obstructs.grant (h : table.Obstructs request tx) (hfree : table.blockers granted = []) :
    (table.grant granted).Obstructs request tx := by
  by_cases hpage : request.page = granted.page
  · obtain ⟨hne, howner | ⟨hmode, hheld⟩⟩ := obstructs_iff.1 h
    · rw [hpage] at howner
      exact obstructs_iff.2 ⟨hne, .inl (hpage ▸ (ownedBy_grant hfree tx).2 (.inl howner))⟩
    · rw [hpage] at hheld
      exact obstructs_iff.2 ⟨hne, .inr ⟨hmode, hpage ▸ (heldBy_grant hfree tx).2 (.inl hheld)⟩⟩
  · rw [Obstructs, records_grant_of_ne hpage]
    exact h

theorem Obstructs.complete {gone : TxId} (h : table.Obstructs request tx) (hne : tx ≠ gone) :
    (table.complete gone).Obstructs request tx := by
  obtain ⟨record, hmem, hconflict, rfl⟩ := h
  refine ⟨record, ?_, hconflict, rfl⟩
  rw [records_complete]
  exact List.mem_filter.2 ⟨hmem, by simpa using hne⟩

end LockTable

namespace Docket

open LockTable

variable {docket : Docket} {tx other : TxId}

theorem run_append (docket : Docket) (earlier later : List Act) :
    docket.run (earlier ++ later) = (docket.run earlier).run later :=
  List.foldl_append ..

/-- The transaction is blocked, and the other one has a lock in the way of its request. -/
def Awaits (docket : Docket) (tx other : TxId) : Prop :=
  ∃ petition ∈ docket.pending tx, petition.budget?.isSome = true ∧
    docket.manager.table.Obstructs { tx, page := petition.page, mode := petition.mode } other

instance (docket : Docket) (tx other : TxId) : Decidable (docket.Awaits tx other) :=
  inferInstanceAs (Decidable (∃ petition ∈ docket.pending tx, _))

theorem awaits_iff :
    docket.Awaits tx other ↔ ∃ page mode budget,
      docket.pending tx = some { page, mode, budget? := some budget } ∧
        docket.manager.table.Obstructs { tx, page, mode } other := by
  constructor
  · rintro ⟨⟨page, mode, budget?⟩, hpending, hblocked, hobstructs⟩
    obtain ⟨budget, rfl⟩ := Option.isSome_iff_exists.1 hblocked
    exact ⟨page, mode, budget, hpending, hobstructs⟩
  · rintro ⟨page, mode, budget, hpending, hobstructs⟩
    exact ⟨_, hpending, rfl, hobstructs⟩

/-- What an act says about the request that it evaluates. -/
def ruling? (docket : Docket) : Act → Option Ruling
  | .evaluate tx now =>
      match docket.pending tx with
      | some { page, mode, budget? := none } =>
          match Budget.start docket.manager.policy now with
          | .ok budget => some ((docket.manager.enter tx).attempt { tx, page, mode } budget now).1
          | .error _ => none
      | _ => none
  | .wake tx timedOut now =>
      match docket.pending tx with
      | some { page, mode, budget? := some budget } =>
          some (docket.manager.attempt { tx, page, mode } (budget.afterWait timedOut) now).1
      | _ => none
  | _ => none

/-- Everything that a transaction has in its way has an edge in the wait-for graph. -/
def Aware (docket : Docket) (tx : TxId) : Prop :=
  ∀ other, docket.Awaits tx other → docket.manager.graph.WaitsFor tx other

/-- A request that is evaluated again while somebody has a lock in its way is refused, or it waits
on: then it knows whom it waits for, and all others stand where they stood. -/
theorem wake_of_awaits (hawaits : docket.Awaits tx other) (timedOut : Bool) (now : Nat) :
    (∃ error, docket.ruling? (.wake tx timedOut now) = some (.refused error) ∧
        error.kind = .deadlock) ∨
      (∀ waiter target, (docket.act (.wake tx timedOut now)).Awaits waiter target ↔
        docket.Awaits waiter target) ∧
      (docket.act (.wake tx timedOut now)).Aware tx ∧
      ∀ waiter, docket.Aware waiter → (docket.act (.wake tx timedOut now)).Aware waiter := by
  obtain ⟨page, mode, budget, hpending, hobstructs⟩ := awaits_iff.1 hawaits
  simp only [act, ruling?, hpending, Docket.attempt]
  have hattempted := docket.manager.attempted_attempt { tx, page, mode }
    (budget.afterWait timedOut) now
  generalize (docket.manager.attempt { tx, page, mode } (budget.afterWait timedOut) now).1 = ruling,
    (docket.manager.attempt { tx, page, mode } (budget.afterWait timedOut) now).2 = manager
    at hattempted
  cases hattempted with
  | granted hfree =>
      have hblocker := mem_blockers_iff.2 hobstructs
      rw [hfree] at hblocker
      cases hblocker
  | cycle chain => exact .inl ⟨_, rfl, rfl⟩
  | timeout => exact .inl ⟨_, rfl, rfl⟩
  | wait =>
      have hawaits : ∀ waiter target,
          ({ docket with
            manager := { docket.manager with
              graph := docket.manager.graph.setEdges tx
                (docket.manager.table.blockers { tx, page, mode }) } }.rule { tx, page, mode }
              (budget.afterWait timedOut) .wait).Awaits waiter target ↔
            docket.Awaits waiter target := fun waiter target => by
        by_cases heq : waiter = tx
        · subst heq
          simp [awaits_iff, rule, hpending]
        · simp [awaits_iff, rule, update_of_ne heq]
      have hself : ∀ target, docket.Awaits tx target →
          (docket.manager.graph.setEdges tx
            (docket.manager.table.blockers { tx, page, mode })).WaitsFor tx target := by
        intro target htarget
        obtain ⟨page', mode', budget', hpending', hobstructs'⟩ := awaits_iff.1 htarget
        rw [hpending] at hpending'
        cases hpending'
        exact waitsFor_setEdges_self.2 (mem_blockers_iff.2 hobstructs')
      refine .inr ⟨hawaits, fun target h => hself target ((hawaits tx target).1 h), ?_⟩
      intro waiter haware target h
      have hbefore := (hawaits waiter target).1 h
      by_cases heq : waiter = tx
      · subst heq
        exact hself target hbefore
      · exact (waitsFor_setEdges_of_ne heq).2 (haware target hbefore)

/-- Evaluates a blocked request again. -/
structure Retry where
  tx : TxId
  timedOut : Bool
  now : Nat

def Retry.act (retry : Retry) : Act :=
  .wake retry.tx retry.timedOut retry.now

/-- Induction on the evaluations: as long as none is refused, nobody's waits change, and whoever
has been evaluated is aware of what is in his way. -/
theorem refused_or_aware (retries : List Retry)
    (hawaits : ∀ retry ∈ retries, ∃ other, docket.Awaits retry.tx other) :
    (∃ before retry after error, retries = before ++ retry :: after ∧
      (docket.run (before.map Retry.act)).ruling? retry.act = some (.refused error) ∧
      error.kind = .deadlock) ∨
    (∀ waiter target, (docket.run (retries.map Retry.act)).Awaits waiter target ↔
      docket.Awaits waiter target) ∧
    (∀ waiter, docket.Aware waiter ∨ waiter ∈ retries.map Retry.tx →
      (docket.run (retries.map Retry.act)).Aware waiter) := by
  induction retries generalizing docket with
  | nil => exact .inr ⟨fun _ _ => .rfl, by simp [run]⟩
  | cons retry retries ih =>
      obtain ⟨other, hfirst⟩ := hawaits retry (by simp)
      rcases wake_of_awaits hfirst retry.timedOut retry.now with
        ⟨error, hruling, hkind⟩ | ⟨hsame, haware, hkept⟩
      · exact .inl ⟨[], retry, retries, error, rfl, hruling, hkind⟩
      · have hrest : ∀ next ∈ retries, ∃ other, (docket.act retry.act).Awaits next.tx other :=
          fun next hnext => by
            obtain ⟨other, hother⟩ := hawaits next (List.mem_cons_of_mem _ hnext)
            exact ⟨other, (hsame _ _).2 hother⟩
        rcases ih hrest with ⟨before, next, after, error, heq, hruling, hkind⟩ | ⟨hlater, hall⟩
        · exact .inl ⟨retry :: before, next, after, error, by rw [heq]; rfl, hruling, hkind⟩
        · refine .inr ⟨fun waiter target => (hlater waiter target).trans (hsame waiter target),
            fun waiter hwaiter => hall waiter ?_⟩
          rcases hwaiter with hwaiter | hwaiter
          · exact .inl (hkept waiter hwaiter)
          · rcases List.mem_cons.1 hwaiter with rfl | hwaiter
            · exact .inl haware
            · exact .inr hwaiter

/-- **No undetected deadlock.** Take any state of a lock manager in which blocked requests form a
cycle, each with a lock of the next transaction in its way, whatever the wait-for graph says. When
each of them is evaluated once more, in any order and with nothing in between, one is refused as a
deadlock. -/
theorem cycle_refused (policy : LockPolicy) (scatter : Scatter) (acts : List Act)
    (first : TxId) (rest : List TxId) (retries : List Retry)
    (hcycle : (first :: rest ++ [first]).IsChain ((new policy scatter).run acts).Awaits)
    (hretries : (retries.map Retry.tx).Perm (first :: rest)) :
    ∃ before retry after error, retries = before ++ retry :: after ∧
      ((new policy scatter).run (acts ++ before.map Retry.act)).ruling? retry.act =
        some (.refused error) ∧
      error.kind = .deadlock := by
  have hsound : ((new policy scatter).run acts).Sound := (sound_new policy scatter).run acts
  simp only [run_append]
  generalize (new policy scatter).run acts = docket at hcycle hsound
  have hnext : ∀ tx ∈ first :: rest, ∃ other, docket.Awaits tx other := fun tx htx => by
    obtain ⟨before, after, hsplit⟩ := List.append_of_mem htx
    rw [hsplit, List.append_assoc, List.cons_append] at hcycle
    cases after with
    | nil => exact ⟨first, (List.isChain_append_cons_cons.1 hcycle).2.1⟩
    | cons other after => exact ⟨other, (List.isChain_append_cons_cons.1 hcycle).2.1⟩
  rcases refused_or_aware retries fun retry hretry =>
      hnext _ (hretries.subset (List.mem_map_of_mem hretry)) with hrefused | ⟨hsame, haware⟩
  · exact hrefused
  · have hmembers : ∀ tx ∈ first :: rest ++ [first], tx ∈ retries.map Retry.tx := fun tx htx => by
      refine hretries.symm.subset ((List.mem_append.1 htx).elim id fun hlast => ?_)
      rw [List.mem_singleton.1 hlast]
      exact List.mem_cons_self
    have hedges : (first :: rest ++ [first]).IsChain
        (docket.run (retries.map Retry.act)).manager.graph.WaitsFor :=
      hcycle.imp_of_mem_imp fun tx other htx _ hawaits =>
        haware tx (.inr (hmembers tx htx)) other ((hsame tx other).2 hawaits)
    have hself := (hedges.imp fun _ _ => Relation.TransGen.single).rel_cons
      (List.mem_append_right rest (List.mem_singleton_self first))
    exact absurd hself ((hsound.run _).acyclic first)

/-- A reader gets in on a page that a writer waits for, and then waits for that writer itself. -/
def overtaken : List Act :=
  [.issue ⟨1, ⟨0, 0⟩, .shared⟩, .evaluate 1 0, .issue ⟨2, ⟨0, 1⟩, .shared⟩, .evaluate 2 0,
    .issue ⟨2, ⟨0, 0⟩, .exclusive⟩, .evaluate 2 0, .issue ⟨3, ⟨0, 0⟩, .shared⟩, .evaluate 3 0,
    .issue ⟨3, ⟨0, 1⟩, .exclusive⟩, .evaluate 3 0]

/-- The graph does not know that the writer waits for the reader, too. -/
theorem cycle_refused_overtaken :
    ((new .default .plain).run overtaken).manager.graph.targets 2 = [1] ∧
    ∃ before retry after error, [Retry.mk 3 false 0, .mk 2 false 0] = before ++ retry :: after ∧
      ((new .default .plain).run (overtaken ++ before.map Retry.act)).ruling? retry.act =
        some (.refused error) ∧
      error.kind = .deadlock :=
  ⟨by decide_cbv, cycle_refused .default .plain overtaken 2 [3] [.mk 3 false 0, .mk 2 false 0]
    (by decide_cbv) (by decide)⟩

end Docket

end PagePool
