import PagePool.Proofs.Lock.Acquire
import PagePool.Proofs.Lock.Phantom
import PagePool.Proofs.Lock.Release

/-!
# No wake-up is lost

A blocked request becomes grantable only when somebody else's lock on its page is taken away, and
who takes it away notifies the shard of the page. Evaluations help nobody else: they add locks, or
change no lock at all. So a request that could be granted has been notified since it was evaluated
last, and once all such requests have been evaluated again, none that could be granted is left
asleep.
-/

namespace PagePool

open LockRecord LockTable Function

namespace LockManager

variable {manager : LockManager} {request : Request} {tx : TxId}

/-- The act notifies the shard of a page. -/
def Notifies (manager : LockManager) (act : Act) (page : PageId) : Prop :=
  ∃ shards, (manager.act act).notified = manager.notified ++ shards ∧ manager.shard page ∈ shards

/-- The act takes locks away. -/
def Act.Departs : Act → Prop
  | .release _ _ | .complete _ => True
  | _ => False

theorem attempt_eq_granted_iff {budget : Budget} {now : Nat} :
    (manager.attempt request budget now).1 = .granted ↔ manager.table.blockers request = [] := by
  have hattempted := manager.attempted_attempt request budget now
  generalize (manager.attempt request budget now).1 = ruling,
    (manager.attempt request budget now).2 = after at hattempted
  cases hattempted with
  | granted hfree => simp [hfree]
  | wait hblocked | cycle _ hblocked | timeout hblocked => simp [hblocked]

theorem notified_act {act : Act} (hstays : ¬act.Departs) :
    (manager.act act).notified = manager.notified := by
  cases act with
  | issue => rfl
  | evaluate request now =>
      simp only [LockManager.act]
      split
      · exact notified_attempt ..
      · rfl
  | reevaluate request budget now => exact notified_attempt ..
  | release | complete => exact absurd trivial hstays

theorem obstructs_attempt (h : manager.table.Obstructs request tx) (attempted : Request)
    (budget : Budget) (now : Nat) :
    (manager.attempt attempted budget now).2.table.Obstructs request tx := by
  rw [table_attempt]
  split
  · next hfree => exact h.grant hfree
  · exact h

/-- One case for each act: a lock that was in the way of a request stays there unless its own
transaction gives it back. -/
theorem departure_of_obstructs {act : Act} (h : manager.table.Obstructs request tx)
    (hafter : ¬(manager.act act).table.Obstructs request tx) :
    act = .release tx request.page ∨ act = .complete tx := by
  cases act with
  | issue => exact absurd h hafter
  | evaluate attempted now =>
      simp only [LockManager.act] at hafter
      split at hafter
      · have hentered : (manager.enter attempted.tx).table.Obstructs request tx := h
        exact absurd (obstructs_attempt hentered ..) hafter
      · exact absurd h hafter
  | reevaluate attempted budget now => exact absurd (obstructs_attempt h ..) hafter
  | release gone page =>
      by_contra hother
      refine hafter ?_
      obtain ⟨record, hmem, hconflict, rfl⟩ := h
      refine ⟨record, ?_, hconflict, rfl⟩
      rw [LockManager.act, table_release, records_release]
      split
      · next hpage =>
        have hne : record.tx ≠ gone := fun heq => hother (.inl (by rw [heq, hpage]))
        exact List.mem_filter.2 ⟨hmem, by simpa using hne⟩
      · exact hmem
  | complete gone =>
      by_contra hother
      exact hafter (h.complete fun heq => hother (.inr (by rw [heq])))

/-- Who gives back a lock on a page notifies the shard of the page, and has no lock there left. -/
theorem notifies_of_heldBy {act : Act} {page : PageId}
    (hact : act = .release tx page ∨ act = .complete tx)
    (hheld : HeldBy (manager.table.records page) tx) :
    ¬HeldBy ((manager.act act).table.records page) tx ∧ manager.Notifies act page := by
  rcases hact with rfl | rfl
  · have hnotified := manager.notified_release tx page
    rw [if_pos (holds_iff.2 hheld)] at hnotified
    refine ⟨fun hafter => ?_, _, hnotified, List.mem_singleton_self _⟩
    rw [LockManager.act, table_release, records_release, if_pos rfl, heldBy_filter_ne] at hafter
    exact hafter.2 rfl
  · refine ⟨fun hafter => ?_, _, rfl, List.mem_map_of_mem (mem_related_iff.2 hheld)⟩
    have hrecords : HeldBy ((manager.table.complete tx).records page) tx := hafter
    rw [records_complete, heldBy_filter_ne] at hrecords
    exact hrecords.2 rfl

/-- A request is freed by the departure of somebody in its way. -/
theorem freed_by_departure {act : Act} (hblocked : manager.table.blockers request ≠ [])
    (hfree : (manager.act act).table.blockers request = []) :
    ∃ gone ≠ request.tx, (act = .release gone request.page ∨ act = .complete gone) ∧
      HeldBy (manager.table.records request.page) gone ∧
      ¬HeldBy ((manager.act act).table.records request.page) gone ∧
      manager.Notifies act request.page := by
  obtain ⟨gone, hgone⟩ := List.exists_mem_of_ne_nil _ hblocked
  have hobstructs : manager.table.Obstructs request gone := mem_blockers_iff.1 hgone
  have hafter : ¬(manager.act act).table.Obstructs request gone := fun hstill => by
    have hmem := mem_blockers_iff.2 hstill
    rw [hfree] at hmem
    cases hmem
  have hact := departure_of_obstructs hobstructs hafter
  have hheld := heldBy_of_mem_blockers hgone
  exact ⟨gone, (obstructs_iff.1 hobstructs).1, hact, hheld, notifies_of_heldBy hact hheld⟩

end LockManager

namespace Docket

variable {docket : Docket} {request : Request} {tx : TxId}

def Notifies (docket : Docket) (act : Act) (page : PageId) : Prop :=
  ∃ shards, (docket.act act).manager.notified = docket.manager.notified ++ shards ∧
    docket.manager.shard page ∈ shards

def Act.Departs : Act → Prop
  | .release _ _ | .complete _ => True
  | _ => False

/-- The transaction is blocked, and its request would be granted if it were evaluated again. -/
def Grantable (docket : Docket) (tx : TxId) : Prop :=
  ∃ timedOut now, docket.ruling? (.wake tx timedOut now) = some .granted

theorem grantable_iff :
    docket.Grantable tx ↔ ∃ page mode budget,
      docket.pending tx = some { page, mode, budget? := some budget } ∧
        docket.manager.table.blockers { tx, page, mode } = [] := by
  constructor
  · rintro ⟨timedOut, now, hruling⟩
    simp only [ruling?] at hruling
    split at hruling
    · next page mode budget hpending =>
      exact ⟨page, mode, budget, hpending,
        LockManager.attempt_eq_granted_iff.1 (Option.some.inj hruling)⟩
    · cases hruling
  · rintro ⟨page, mode, budget, hpending, hfree⟩
    refine ⟨false, 0, ?_⟩
    simp only [ruling?, hpending]
    exact congrArg some (LockManager.attempt_eq_granted_iff.2 hfree)

/-- What an act asks of the lock manager, if it asks anything. -/
theorem manager_act (docket : Docket) (act : Act) :
    (docket.act act).manager = docket.manager ∨
      ∃ asked : LockManager.Act, (docket.act act).manager = docket.manager.act asked ∧
        (asked.Departs ↔ act.Departs) := by
  have hrule : ∀ (docket : Docket) request budget ruling,
      (docket.rule request budget ruling).manager = docket.manager :=
    fun _ _ _ ruling => by cases ruling <;> rfl
  cases act with
  | issue request =>
      simp only [Docket.act]
      split
      · exact .inl rfl
      · exact .inr ⟨.issue request.tx, rfl, .rfl⟩
  | evaluate waiter now =>
      simp only [Docket.act]
      split
      · next page mode _ =>
        refine .inr ⟨.evaluate { tx := waiter, page, mode } now, ?_, .rfl⟩
        simp only [Docket.evaluate, LockManager.act]
        cases Budget.start (docket.manager.enter waiter).policy now with
        | ok budget => exact hrule ..
        | error => rfl
      · exact .inl rfl
  | wake waiter timedOut now =>
      simp only [Docket.act]
      split
      · next page mode budget _ =>
        exact .inr ⟨.reevaluate { tx := waiter, page, mode } (budget.afterWait timedOut) now,
          hrule .., .rfl⟩
      · exact .inl rfl
  | release gone page => exact .inr ⟨.release gone page, rfl, .rfl⟩
  | complete gone =>
      simp only [Docket.act]
      split
      · exact .inl rfl
      · exact .inr ⟨.complete gone, rfl, .rfl⟩

/-- Only departures notify anybody. -/
theorem Notifies.departs {act : Act} {page : PageId} (h : docket.Notifies act page) :
    act.Departs := by
  obtain ⟨shards, hnotified, hmem⟩ := h
  by_contra hstays
  have hsame : (docket.act act).manager.notified = docket.manager.notified := by
    rcases docket.manager_act act with heq | ⟨asked, heq, hdeparts⟩
    · rw [heq]
    · rw [heq, LockManager.notified_act fun h => hstays (hdeparts.1 h)]
  rw [hsame, List.self_eq_append_right] at hnotified
  rw [hnotified] at hmem
  cases hmem

/-- After an evaluation a transaction is blocked as before, unless the evaluation has been its own:
then something is in its way. -/
theorem blocked_attempt {budget : Budget} {now : Nat} {page : PageId} {mode : LockMode}
    {left : Budget}
    (hafter : (docket.attempt request budget now).pending tx =
      some { page, mode, budget? := some left }) :
    tx ≠ request.tx ∧ docket.pending tx = some { page, mode, budget? := some left } ∨
      (docket.attempt request budget now).manager.table.blockers { tx, page, mode } ≠ [] := by
  have hattempted := docket.manager.attempted_attempt request budget now
  simp only [Docket.attempt] at hafter ⊢
  generalize (docket.manager.attempt request budget now).1 = ruling,
    (docket.manager.attempt request budget now).2 = manager at hattempted hafter ⊢
  by_cases heq : tx = request.tx
  · subst heq
    cases hattempted with
    | granted | cycle | timeout => simp [rule] at hafter
    | wait hblocked =>
        obtain ⟨rfl, rfl, rfl⟩ : request.page = page ∧ request.mode = mode ∧ budget = left := by
          simpa [rule] using hafter
        exact .inr hblocked
  · refine .inl ⟨heq, ?_⟩
    cases hattempted <;> simpa [rule, update_of_ne heq] using hafter

/-- One case for each act: a blocked transaction has been so before and is not woken by the act, or
it has just been evaluated, with somebody in its way. -/
theorem blocked_act {act : Act} {page : PageId} {mode : LockMode} {budget : Budget}
    (hafter : (docket.act act).pending tx = some { page, mode, budget? := some budget }) :
    docket.pending tx = some { page, mode, budget? := some budget } ∧
        (∀ timedOut now, act ≠ .wake tx timedOut now) ∨
      (docket.act act).manager.table.blockers { tx, page, mode } ≠ [] := by
  cases act with
  | issue request =>
      simp only [Docket.act] at hafter ⊢
      split at hafter
      · exact .inl ⟨hafter, by simp⟩
      · by_cases heq : tx = request.tx
        · simp [heq] at hafter
        · exact .inl ⟨by simpa [update_of_ne heq] using hafter, by simp⟩
  | evaluate waiter now =>
      simp only [Docket.act] at hafter ⊢
      split at hafter
      · simp only [Docket.evaluate] at hafter ⊢
        split at hafter
        · exact (blocked_attempt hafter).imp (fun h => ⟨h.2, by simp⟩) id
        · by_cases heq : tx = waiter
          · simp [heq] at hafter
          · exact .inl ⟨by simpa [update_of_ne heq] using hafter, by simp⟩
      · exact .inl ⟨hafter, by simp⟩
  | wake waiter timedOut now =>
      simp only [Docket.act] at hafter ⊢
      split at hafter
      · refine (blocked_attempt hafter).imp (fun h => ⟨h.2, ?_⟩) id
        rintro _ _ ⟨⟩
        exact h.1 rfl
      · next hpending =>
        refine .inl ⟨hafter, ?_⟩
        rintro _ _ ⟨⟩
        exact hpending page mode budget hafter
  | release => exact .inl ⟨hafter, by simp⟩
  | complete gone =>
      simp only [Docket.act] at hafter ⊢
      split at hafter <;> exact .inl ⟨hafter, by simp⟩

/-- A request that can be granted after an act could be granted before, and has not been evaluated
by the act, or it was blocked and the act has notified its shard. -/
theorem grantable_act {act : Act} (hafter : (docket.act act).Grantable tx) :
    (docket.Grantable tx ∧ ∀ timedOut now, act ≠ .wake tx timedOut now) ∨
      ∃ page mode budget, docket.pending tx = some { page, mode, budget? := some budget } ∧
        docket.Notifies act page := by
  obtain ⟨page, mode, budget, hpending, hfree⟩ := grantable_iff.1 hafter
  obtain ⟨hbefore, hwake⟩ := (blocked_act hpending).resolve_right (not_not_intro hfree)
  by_cases hready : docket.manager.table.blockers { tx, page, mode } = []
  · exact .inl ⟨grantable_iff.2 ⟨page, mode, budget, hbefore, hready⟩, hwake⟩
  · right
    refine ⟨page, mode, budget, hbefore, ?_⟩
    rcases docket.manager_act act with heq | ⟨asked, heq, _⟩
    · rw [heq] at hfree
      exact absurd hfree hready
    · rw [heq] at hfree
      obtain ⟨_, _, _, _, _, hnotifies⟩ := LockManager.freed_by_departure hready hfree
      rw [Notifies, heq]
      exact hnotifies

/-- Some act has notified the shard of the transaction's request, and the request has not been
evaluated since. -/
def Woken (docket : Docket) (acts : List Act) (tx : TxId) : Prop :=
  ∃ earlier act later page mode budget, acts = earlier ++ act :: later ∧
    (docket.run earlier).pending tx = some { page, mode, budget? := some budget } ∧
    (docket.run earlier).Notifies act page ∧ ∀ timedOut now, .wake tx timedOut now ∉ later

/-- Induction on the run from its end. -/
theorem woken_of_grantable (hnone : ¬docket.Grantable tx) {acts : List Act}
    (h : (docket.run acts).Grantable tx) : docket.Woken acts tx := by
  induction acts using List.reverseRecOn with
  | nil => exact absurd h hnone
  | append_singleton acts act ih =>
      have hlast : docket.run (acts ++ [act]) = (docket.run acts).act act := run_append ..
      rw [hlast] at h
      rcases grantable_act h with ⟨hbefore, hwake⟩ | ⟨page, mode, budget, hpending, hnotifies⟩
      · obtain ⟨earlier, notifier, later, page, mode, budget, rfl, hpending, hnotifies, hlater⟩ :=
          ih hbefore
        refine ⟨earlier, notifier, later ++ [act], page, mode, budget, by simp, hpending, hnotifies,
          fun timedOut now => ?_⟩
        rw [List.mem_append, List.mem_singleton, not_or]
        exact ⟨hlater timedOut now, (hwake timedOut now).symm⟩
      · exact ⟨acts, act, [], page, mode, budget, rfl, hpending, hnotifies, by simp⟩

/-- Acts that take no locks away wake nobody. -/
theorem Woken.of_append {acts pass : List Act} (hstays : ∀ act ∈ pass, ¬act.Departs)
    (h : docket.Woken (acts ++ pass) tx) :
    docket.Woken acts tx ∧ ∀ timedOut now, .wake tx timedOut now ∉ pass := by
  obtain ⟨earlier, act, later, page, mode, budget, hsplit, hpending, hnotifies, hlater⟩ := h
  have hact : act ∉ pass := fun hmem => hstays act hmem hnotifies.departs
  rcases List.append_eq_append_iff.1 hsplit with ⟨_, _, hpass⟩ | ⟨rest, hacts, hrest⟩
  · exact absurd (by simp [hpass]) hact
  · cases rest with
    | nil =>
        have hpass : act :: later = pass := hrest
        exact absurd (hpass ▸ List.mem_cons_self) hact
    | cons first rest =>
        obtain ⟨rfl, rfl⟩ := List.cons.inj hrest
        refine ⟨⟨earlier, act, rest, page, mode, budget, hacts, hpending, hnotifies, ?_⟩, ?_⟩
        · exact fun timedOut now hmem => hlater timedOut now (List.mem_append_left _ hmem)
        · exact fun timedOut now hmem => hlater timedOut now (List.mem_append_right _ hmem)

/-- **No wake-up is lost.** Whatever is asked of a lock manager in whatever state: if a request is
not granted before an act and granted after it, then the act is a release or a completion that takes
somebody else's lock off the page of the request, and it notifies the shard of the page. So no other
act makes a blocked request grantable; one that is grantable at the end of a run has been notified
since its last evaluation; and once all these have been evaluated again, among any acts that take no
locks away, no grantable request is left asleep. -/
theorem no_wakeup_lost (policy : LockPolicy) (scatter : Scatter) (acts : List Act) :
    let docket := (new policy scatter).run acts
    (∀ (manager : LockManager) (act : LockManager.Act) (request : Request),
      (manager.evaluate request).1 ≠ .granted →
      ((manager.act act).evaluate request).1 = .granted →
      ∃ gone ≠ request.tx, (act = .release gone request.page ∨ act = .complete gone) ∧
        HeldBy (manager.table.records request.page) gone ∧
        ¬HeldBy ((manager.act act).table.records request.page) gone ∧
        manager.Notifies act request.page) ∧
    (∀ act, ¬act.Departs → ∀ tx, (docket.act act).Grantable tx → docket.Grantable tx) ∧
    (∀ tx, docket.Grantable tx → (new policy scatter).Woken acts tx) ∧
    ∀ pass, (∀ act ∈ pass, ¬act.Departs) →
      (∀ tx, (new policy scatter).Woken acts tx → ∃ timedOut now, .wake tx timedOut now ∈ pass) →
      ∀ tx, ¬(docket.run pass).Grantable tx := by
  intro docket
  have hnew : ∀ tx, ¬(new policy scatter).Grantable tx := fun tx hgrantable => by
    obtain ⟨page, mode, budget, hpending, _⟩ := grantable_iff.1 hgrantable
    cases hpending
  refine ⟨fun manager act request hrefused hgranted => ?_, fun act hstays tx hafter => ?_,
    fun tx hgrantable => woken_of_grantable (hnew tx) hgrantable,
    fun pass hstays hpass tx hgrantable => ?_⟩
  · rw [Ne, LockManager.evaluate_eq_granted_iff] at hrefused
    rw [LockManager.evaluate_eq_granted_iff] at hgranted
    exact LockManager.freed_by_departure hrefused hgranted
  · rcases grantable_act hafter with ⟨hbefore, _⟩ | ⟨_, _, _, _, hnotifies⟩
    · exact hbefore
    · exact absurd hnotifies.departs hstays
  · rw [← run_append] at hgrantable
    obtain ⟨hwoken, hnot⟩ := (woken_of_grantable (hnew tx) hgrantable).of_append hstays
    obtain ⟨timedOut, now, hmem⟩ := hpass tx hwoken
    exact hnot timedOut now hmem

end Docket

end PagePool
