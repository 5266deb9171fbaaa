import PagePool.Proofs.Lock.Deadlock

/-!
# Waits that have lapsed

Every edge of the wait-for graph was a wait when it was set. It still is one, unless the transaction
it leads to has released the lock since and the waiter has not been evaluated again. That is the
only way for a deadlock to be reported where there is none: a transaction that gives a lock back and
asks for the next one before those it has woken are evaluated may be told that it waits for itself.
-/

namespace PagePool

open LockRecord WaitForGraph LockTable Function

namespace Docket

variable {docket : Docket} {request : Request} {tx other : TxId}

/-- The other transaction has released what the transaction waited for, whose request has not been
evaluated since. -/
def Lapsed (docket : Docket) (acts : List Act) (tx other : TxId) : Prop :=
  ∃ earlier page later, acts = earlier ++ .release other page :: later ∧
    (docket.run earlier).Awaits tx other ∧
    ¬(docket.run (earlier ++ [.release other page])).Awaits tx other ∧
    ∀ timedOut now, .wake tx timedOut now ∉ later

theorem Awaits.blocked (h : docket.Awaits tx other) : docket.Blocked tx := by
  obtain ⟨page, mode, budget, hpending, _⟩ := awaits_iff.1 h
  exact ⟨_, budget, hpending, rfl⟩

/-- Waits go by the waiter's request and the locks in its way, and by nothing else. -/
theorem Awaits.of_obstructs {after : Docket} (h : docket.Awaits tx other)
    (hpending : after.pending tx = docket.pending tx)
    (hobstructs : ∀ request : Request, request.tx = tx →
      docket.manager.table.Obstructs request other → after.manager.table.Obstructs request other) :
    after.Awaits tx other := by
  obtain ⟨page, mode, budget, hwaits, hobstructed⟩ := awaits_iff.1 h
  exact awaits_iff.2 ⟨page, mode, budget, hpending.trans hwaits, hobstructs _ rfl hobstructed⟩

/-- After an evaluation the edges of its transaction are waits, and those of others are old. -/
theorem waitsFor_attempt {budget : Budget} {now : Nat}
    (hedge : (docket.attempt request budget now).manager.graph.WaitsFor tx other) :
    (docket.attempt request budget now).Awaits tx other ∨
      tx ≠ request.tx ∧ docket.manager.graph.WaitsFor tx other ∧
        (docket.Awaits tx other → (docket.attempt request budget now).Awaits tx other) := by
  have hattempted := docket.manager.attempted_attempt request budget now
  simp only [Docket.attempt] at hedge ⊢
  generalize (docket.manager.attempt request budget now).1 = ruling,
    (docket.manager.attempt request budget now).2 = manager at hattempted hedge ⊢
  cases hattempted with
  | granted hfree =>
      obtain ⟨hold, hne⟩ := waitsFor_removeWaiter_iff.1 hedge
      refine .inr ⟨hne, hold, fun hawaits => ?_⟩
      exact hawaits.of_obstructs (update_of_ne hne ..) fun _ _ hobstructs => hobstructs.grant hfree
  | wait =>
      by_cases heq : tx = request.tx
      · subst heq
        have hblocker := mem_blockers_iff.1 (waitsFor_setEdges_self.1 hedge)
        exact .inl (awaits_iff.2 ⟨_, _, budget, update_self .., hblocker⟩)
      · have hold := (waitsFor_setEdges_of_ne heq).1 hedge
        refine .inr ⟨heq, hold, fun hawaits => ?_⟩
        exact hawaits.of_obstructs (update_of_ne heq ..) fun _ _ hobstructs => hobstructs
  | cycle | timeout =>
      obtain ⟨hold, hne⟩ := waitsFor_removeWaiter_iff.1 hedge
      refine .inr ⟨hne, hold, fun hawaits => ?_⟩
      exact hawaits.of_obstructs (update_of_ne hne ..) fun _ _ hobstructs => hobstructs

theorem waitsFor_evaluate {now : Nat}
    (hedge : (docket.evaluate request now).manager.graph.WaitsFor tx other) :
    (docket.evaluate request now).Awaits tx other ∨
      docket.manager.graph.WaitsFor tx other ∧
        (tx ≠ request.tx → docket.Awaits tx other →
          (docket.evaluate request now).Awaits tx other) := by
  unfold Docket.evaluate at hedge ⊢
  dsimp only at hedge ⊢
  split at hedge
  · rcases waitsFor_attempt hedge with hawaits | ⟨_, hold, hsame⟩
    · exact .inl hawaits
    · exact .inr ⟨hold, fun _ => hsame⟩
  · refine .inr ⟨hedge, fun hne hawaits => ?_⟩
    exact hawaits.of_obstructs (update_of_ne hne ..) fun _ _ hobstructs => hobstructs

/-- One case for each act: an edge is a wait, or it is an old edge of a transaction that the act
does not wake, and a wait before that only a release by the other one ends. -/
theorem waitsFor_act (h : docket.Sound) {act : Act}
    (hedge : (docket.act act).manager.graph.WaitsFor tx other) :
    (docket.act act).Awaits tx other ∨
      docket.manager.graph.WaitsFor tx other ∧ (∀ timedOut now, act ≠ .wake tx timedOut now) ∧
        (docket.Awaits tx other → (∀ page, act ≠ .release other page) →
          (docket.act act).Awaits tx other) := by
  cases act with
  | issue request =>
      simp only [Docket.act] at hedge ⊢
      split at hedge
      · exact .inr ⟨hedge, by simp, fun hawaits _ => hawaits⟩
      · next hfree =>
        have hne : tx ≠ request.tx := by
          rintro rfl
          obtain ⟨_, _, hpending, _⟩ := h.blocked _ _ hedge
          rw [hfree] at hpending
          cases hpending
        refine .inr ⟨hedge, by simp, fun hawaits _ => ?_⟩
        exact hawaits.of_obstructs (update_of_ne hne ..) fun _ _ hobstructs => hobstructs
  | evaluate waiter now =>
      simp only [Docket.act] at hedge ⊢
      split at hedge
      · next page mode hpending =>
        rcases waitsFor_evaluate hedge with hawaits | ⟨hold, hsame⟩
        · exact .inl hawaits
        · refine .inr ⟨hold, by simp, fun hawaits _ => ?_⟩
          refine hsame (fun heq : tx = waiter => ?_) hawaits
          exact Issued.not_blocked ⟨_, heq ▸ hpending, rfl⟩ hawaits.blocked
      · exact .inr ⟨hedge, by simp, fun hawaits _ => hawaits⟩
  | wake waiter timedOut now =>
      simp only [Docket.act] at hedge ⊢
      split at hedge
      · rcases waitsFor_attempt hedge with hawaits | ⟨hne, hold, hsame⟩
        · exact .inl hawaits
        · exact .inr ⟨hold, by simp [hne.symm], fun hawaits _ => hsame hawaits⟩
      · next hpending =>
        refine .inr ⟨hedge, ?_, fun hawaits _ => hawaits⟩
        rintro _ _ ⟨⟩
        obtain ⟨⟨page, mode, _⟩, budget, hblocked, rfl⟩ := h.blocked _ _ hedge
        exact hpending page mode budget hblocked
  | release waiter page =>
      have hgraph := docket.manager.graph_release waiter page
      refine .inr ⟨hgraph ▸ hedge, by simp, fun hawaits hother => hawaits.of_obstructs rfl ?_⟩
      rintro request - ⟨record, hmem, hconflict, rfl⟩
      have hne : record.tx ≠ waiter := fun heq => hother page (heq ▸ rfl)
      refine ⟨record, ?_, hconflict, rfl⟩
      simp only [Docket.act]
      rw [LockManager.table_release, records_release]
      split
      · exact List.mem_filter.2 ⟨hmem, by simpa using hne⟩
      · exact hmem
  | complete gone =>
      simp only [Docket.act] at hedge ⊢
      split at hedge
      · exact .inr ⟨hedge, by simp, fun hawaits _ => hawaits⟩
      · obtain ⟨hold, _, hne⟩ := waitsFor_removeTransaction_iff.1 hedge
        refine .inr ⟨hold, by simp, fun hawaits _ => ?_⟩
        exact hawaits.of_obstructs rfl fun _ _ hobstructs => hobstructs.complete hne

/-- **Edges are waits, or have lapsed.** -/
theorem awaits_or_lapsed (policy : LockPolicy) (scatter : Scatter) (acts : List Act)
    (hedge : ((new policy scatter).run acts).manager.graph.WaitsFor tx other) :
    ((new policy scatter).run acts).Awaits tx other ∨ (new policy scatter).Lapsed acts tx other := by
  induction acts using List.reverseRecOn with
  | nil => simp [run, new, LockManager.new, WaitForGraph.WaitsFor] at hedge
  | append_singleton acts act ih =>
      have hsound : ((new policy scatter).run acts).Sound := (sound_new policy scatter).run acts
      have hlast : (new policy scatter).run (acts ++ [act]) =
          ((new policy scatter).run acts).act act := run_append ..
      rw [hlast] at hedge
      by_cases hafter : ((new policy scatter).run (acts ++ [act])).Awaits tx other
      · exact .inl hafter
      · right
        obtain ⟨hold, hwake, hsame⟩ :=
          (waitsFor_act hsound hedge).resolve_left (hlast ▸ hafter)
        rcases ih hold with hawaits | ⟨earlier, page, later, rfl, hearlier, hgone, hlater⟩
        · have hrelease : ∃ page, act = .release other page := by
            by_contra hnot
            exact hafter (hlast ▸ hsame hawaits fun page heq => hnot ⟨page, heq⟩)
          obtain ⟨page, rfl⟩ := hrelease
          exact ⟨acts, page, [], rfl, hawaits, hafter, by simp⟩
        · refine ⟨earlier, page, later ++ [act], by simp, hearlier, hgone, fun timedOut now => ?_⟩
          rw [List.mem_append, List.mem_singleton, not_or]
          exact ⟨hlater timedOut now, (hwake timedOut now).symm⟩

/-- What is refused as a deadlock is a request under way, and the search has found its chain. -/
theorem findDeadlock_of_ruling? {act : Act} {blockers chain : List TxId}
    (hruling : docket.ruling? act = some (.refused (.deadlock request blockers chain))) :
    (∃ budget?, docket.pending request.tx = some ⟨request.page, request.mode, budget?⟩) ∧
      ∃ manager ∈ [docket.manager, docket.manager.enter request.tx],
        (manager.graph.setEdges request.tx (manager.table.blockers request)).findDeadlock
          manager.scatter.order request.tx = some chain := by
  have hattempt : ∀ (manager : LockManager) (asked : Request) (budget : Budget) (now : Nat),
      (manager.attempt asked budget now).1 = .refused (.deadlock request blockers chain) →
        asked = request ∧
          (manager.graph.setEdges request.tx (manager.table.blockers request)).findDeadlock
            manager.scatter.order request.tx = some chain := fun manager asked budget now heq => by
    have hattempted := manager.attempted_attempt asked budget now
    rw [heq] at hattempted
    generalize (manager.attempt asked budget now).2 = after at hattempted
    cases hattempted with
    | cycle _ _ hfound => exact ⟨rfl, hfound⟩
  cases act with
  | evaluate tx now =>
      simp only [ruling?] at hruling
      split at hruling
      · next hpending =>
        split at hruling
        · obtain ⟨rfl, hfound⟩ := hattempt _ _ _ _ (Option.some.inj hruling)
          exact ⟨⟨_, hpending⟩, _, by simp, hfound⟩
        · cases hruling
      · cases hruling
  | wake tx timedOut now =>
      simp only [ruling?] at hruling
      split at hruling
      · next hpending =>
        obtain ⟨rfl, hfound⟩ := hattempt _ _ _ _ (Option.some.inj hruling)
        exact ⟨⟨_, hpending⟩, _, by simp, hfound⟩
      · cases hruling
  | issue | release | complete => cases hruling

/-- **Phantom deadlocks come from lapsed waits only.** When a request is refused as a deadlock and
nobody else is about to wait, the reported chain leads from the requester back to it. The next
transaction of the chain has a lock in the way of the refused request; and so it goes on, from one
blocked request to a lock in its way, but for waits that have lapsed. -/
theorem awaits_or_lapsed_of_deadlock (policy : LockPolicy) (scatter : Scatter) (acts : List Act)
    (act : Act) (request : Request) (blockers chain : List TxId)
    (hruling : ((new policy scatter).run acts).ruling? act =
      some (.refused (.deadlock request blockers chain)))
    (hundecided : ∀ tx ∈ ((new policy scatter).run acts).manager.graph.undecided,
      tx = request.tx) :
    let docket := (new policy scatter).run acts
    (∃ budget?, docket.pending request.tx = some ⟨request.page, request.mode, budget?⟩) ∧
      ∃ middle, chain = request.tx :: middle ++ [request.tx] ∧
        chain.IsChain fun tx other =>
          tx = request.tx ∧ docket.manager.table.Obstructs request other ∨
            docket.Awaits tx other ∨ (new policy scatter).Lapsed acts tx other := by
  intro docket
  obtain ⟨hpending, manager, hmanager, hfound⟩ := findDeadlock_of_ruling? hruling
  have htable : manager.table = docket.manager.table ∧
      (∀ tx ∈ manager.graph.undecided, tx = request.tx) ∧
      ∀ tx other, manager.graph.WaitsFor tx other → docket.manager.graph.WaitsFor tx other := by
    rcases List.mem_cons.1 hmanager with rfl | hmanager
    · exact ⟨rfl, hundecided, fun _ _ => id⟩
    · obtain rfl := List.mem_singleton.1 hmanager
      exact ⟨rfl, fun tx htx => hundecided tx (List.mem_of_mem_filter htx), fun _ _ => id⟩
  obtain ⟨htable, hnobody, hgraph⟩ := htable
  obtain ⟨middle, target, hchain, hcloses, hedges⟩ :=
    isChain_of_findDeadlock_eq_some manager.scatter.order_perm hfound
  have htarget : target = request.tx := by
    simp only [closes, Bool.or_eq_true, decide_eq_true_eq, List.contains_iff_mem] at hcloses
    exact hcloses.elim id (hnobody target)
  refine ⟨hpending, middle, htarget ▸ hchain, hedges.imp fun tx other hedge => ?_⟩
  by_cases heq : tx = request.tx
  · subst heq
    rw [htable] at hedge
    exact .inl ⟨rfl, mem_blockers_iff.1 (waitsFor_setEdges_self.1 hedge)⟩
  · have hold := hgraph tx other ((waitsFor_setEdges_of_ne heq).1 hedge)
    exact .inr (awaits_or_lapsed policy scatter acts hold)

/-- Two transactions with a page each ask for the other one's page. -/
def crossing : List Act :=
  [.issue ⟨1, ⟨0, 0⟩, .shared⟩, .evaluate 1 0, .issue ⟨2, ⟨0, 1⟩, .exclusive⟩, .evaluate 2 0,
    .issue ⟨2, ⟨0, 0⟩, .exclusive⟩, .evaluate 2 0, .issue ⟨1, ⟨0, 1⟩, .shared⟩]

theorem awaits_or_lapsed_of_crossing :
    (∃ budget?, ((new .default .plain).run crossing).pending 1 =
        some ⟨⟨0, 1⟩, .shared, budget?⟩) ∧
      ∃ middle, [1, 2, 1] = 1 :: middle ++ [1] ∧
        [1, 2, 1].IsChain fun tx other =>
          tx = 1 ∧ ((new .default .plain).run crossing).manager.table.Obstructs
              ⟨1, ⟨0, 1⟩, .shared⟩ other ∨
            ((new .default .plain).run crossing).Awaits tx other ∨
            (new .default .plain).Lapsed crossing tx other := by
  have hundecided : ((new .default .plain).run crossing).manager.graph.undecided = [1] := by
    decide_cbv
  exact awaits_or_lapsed_of_deadlock .default .plain crossing (.evaluate 1 0) ⟨1, ⟨0, 1⟩, .shared⟩
    [2] [1, 2, 1] (by decide_cbv) (by simp [hundecided])

/-- The same, but the first transaction gives its page back before it asks for the other one. -/
def yielding : List Act :=
  [.issue ⟨1, ⟨0, 0⟩, .shared⟩, .evaluate 1 0, .issue ⟨2, ⟨0, 1⟩, .exclusive⟩, .evaluate 2 0,
    .issue ⟨2, ⟨0, 0⟩, .exclusive⟩, .evaluate 2 0, .release 1 ⟨0, 0⟩,
    .issue ⟨1, ⟨0, 1⟩, .shared⟩]

/-- It has no lock left then and nobody awaits it, and it is refused all the same. -/
theorem deadlock_of_yielding :
    ((new .default .plain).run yielding).ruling? (.evaluate 1 0) =
        some (.refused (.deadlock ⟨1, ⟨0, 1⟩, .shared⟩ [2] [1, 2, 1])) ∧
      ((new .default .plain).run yielding).manager.graph.undecided = [1] ∧
      ((new .default .plain).run yielding).manager.table.related 1 = [] ∧
      ¬((new .default .plain).run yielding).Awaits 2 1 := by
  decide_cbv

end Docket

end PagePool
