import Mathlib
import PagePool.Proofs.Pool.Untouched
import PagePool.Proofs.Session.Tenure

/-!
# Refused changes leave no trace

Between the start of an insertion or deletion and its end the others act as well. What the call does
itself, event by event, leaves the data alone if it ends with an error.

The error may come up at any page that is looked at, at the upgrade, behind the append or in the
check of the layout. So the call is followed from one lock request to the next: a stretch leaves the
data alone, or it is the one that appends a page, once all pages that there were at the beginning
have been found full. From then on the call has only the new page to go to, and appends no second
one.
-/

namespace PagePool

open Pool

namespace Session

/-- What an event comes to for a call on a heap table: the call goes on, or it has ended. A refusal
has left the data and the tuple alone. -/
inductive Leads (before : Session) (id : Nat) (call : Call)
    (sought : Option (Layout × List PageId)) (after : Session) : Prop where
  | on {task : Task} (htask : after.task? id = some task) (hcall : task.call = call)
      (hheap : task.operation.goal.OnHeap)
      (hprogress : before.pool.Progress call after.pool sought task.operation.sought?)
  | ended {outcome : Outcome} (hgone : after.task? id = none)
      (hlog : after.log = .call id call outcome :: before.log)
      (hrefused : ∀ error, outcome.result = .error (.error error) →
        outcome.tuple = call.inserted? ∧ before.pool.Untouched after.pool)

theorem notifyTask_same (locks : LockManager) (task : Task) :
    (notifyTask locks task).id = task.id ∧ (notifyTask locks task).call = task.call ∧
      (notifyTask locks task).operation = task.operation := by
  unfold notifyTask
  split <;> exact ⟨rfl, rfl, rfl⟩

section Tasks

variable (session : Session) (id : Nat) (call : Call)

theorem task?_close (outcome : Outcome) : (session.close id call outcome).task? id = none := by
  simp [task?, close, List.find?_filter]

theorem task?_suspend (operation : Operation) :
    (session.suspend id call operation).task? id = some ⟨id, call, operation, .issued⟩ := by
  have hnone : (session.tasks.filter fun task => task.id ≠ id).find? (fun task => task.id = id) =
      none := by
    rw [List.find?_eq_none]
    intro task hmem
    simpa using (List.mem_filter.1 hmem).2
  rw [task?, suspend, List.find?_append, hnone, Option.none_or]
  simp

theorem task?_setWait {task : Task} (h : session.task? task.id = some task) (wait : Wait) :
    (session.setWait task wait).task? task.id = some { task with wait } := by
  have hid : (fun other : Task => decide (other.id = task.id)) ∘
      (fun other => if other.id = task.id then { task with wait } else other) =
        fun other => decide (other.id = task.id) := by
    funext other
    by_cases hsame : other.id = task.id <;> simp [hsame]
  have hfound := List.find?_some h
  unfold task? at h ⊢
  rw [setWait, List.find?_map, hid, h]
  simp

theorem task?_deliver :
    session.deliver.task? id = (session.task? id).map (notifyTask session.pool.locks) := by
  have hid : (fun task : Task => decide (task.id = id)) ∘ notifyTask session.pool.locks =
      fun task => decide (task.id = id) := by
    funext task
    rw [Function.comp_apply, (notifyTask_same session.pool.locks task).1]
  rw [task?, deliver, List.find?_map, hid, task?]

end Tasks

variable {session before middle after : Session} {id : Nat} {call : Call}
  {sought : Option (Layout × List PageId)} {task : Task}

theorem outcome?_of_log {outcome : Outcome} {earlier : List Entry}
    (hlog : after.log = .call id call outcome :: earlier) : after.outcome? id = some outcome := by
  simp [outcome?, hlog]

theorem Leads.of_untouched (h : middle.Leads id call sought after)
    (huntouched : before.pool.Untouched middle.pool) (hlog : middle.log = before.log) :
    before.Leads id call sought after := by
  cases h with
  | on htask hcall hheap hprogress =>
      exact .on htask hcall hheap (hprogress.of_untouched huntouched)
  | ended hgone hlog' hrefused =>
      refine .ended hgone (hlog ▸ hlog') fun error hresult => ?_
      obtain ⟨htuple, hsame⟩ := hrefused error hresult
      exact ⟨htuple, huntouched.trans hsame⟩

/-- A stretch of a call, up to its next request or its end. -/
theorem leads_after (session : Session) (id : Nat) (step : Action Step)
    (hstep : Ends step session.pool
      (fun step after => step.Passes call sought session.pool after)
      (fun failure after => failure.IsError → session.pool.Untouched after)) :
    session.Leads id call sought
      (session.after id call call.inserted? (step session.pool)) := by
  unfold Ends at hstep
  unfold Session.after
  split
  · next failure pool hrun =>
    rw [hrun] at hstep
    refine .ended (task?_close ..) rfl fun error hresult => ⟨rfl, hstep ?_⟩
    rw [Except.error.inj hresult]
    trivial
  · next operation pool hrun =>
    rw [hrun] at hstep
    exact .on (task?_suspend ..) rfl hstep.1 (hstep.2.withLocks _)
  · next outcome pool hrun =>
    rw [hrun] at hstep
    exact .ended (task?_close ..) rfl fun error hresult => absurd hresult (hstep error)

theorem Leads.deliver (h : before.Leads id call sought after) :
    before.Leads id call sought after.deliver := by
  have hsame : after.pool.Untouched after.deliver.pool := .of_eq rfl rfl rfl rfl
  cases h with
  | @on task htask hcall hheap hprogress =>
      obtain ⟨_, hcall', hoperation⟩ := notifyTask_same after.pool.locks task
      refine .on (by rw [task?_deliver, htask]; rfl) (hcall'.trans hcall) (by rwa [hoperation]) ?_
      rw [hoperation]
      exact hprogress.withLocks _
  | ended hgone hlog hrefused =>
      refine .ended (by rw [task?_deliver, hgone]; rfl) hlog fun error hresult => ?_
      obtain ⟨htuple, huntouched⟩ := hrefused error hresult
      exact ⟨htuple, huntouched.trans hsame⟩

section Resumed

variable (h : session.pool.Tidy .free) (htask : session.task? task.id = some task)
  (hsuits : task.operation.Suits .free session.pool task.call) (hheap : task.operation.goal.OnHeap)

/-- A task that goes on waiting. -/
theorem leads_setWait (htask : session.task? task.id = some task)
    (hheap : task.operation.goal.OnHeap) (wait : Wait) :
    session.Leads task.id task.call task.operation.sought? (session.setWait task wait) :=
  .on (task?_setWait session htask wait) rfl hheap (.stay (.of_eq rfl rfl rfl rfl))

include hsuits hheap

theorem leads_resume (step : Action Step) (hstep : Ends step session.pool
      (fun step after => step.Passes task.call task.operation.sought? session.pool after)
      (fun failure after => failure.IsError → session.pool.Untouched after)) :
    session.Leads task.id task.call task.operation.sought?
      (session.resume task (step session.pool)) := by
  unfold resume
  rw [hsuits.inserted?_eq hheap]
  exact leads_after session task.id step hstep

theorem leads_fail {failure : Failure} {pool : Pool} (huntouched : session.pool.Untouched pool) :
    session.Leads task.id task.call task.operation.sought?
      (session.resume task (.error failure pool)) :=
  leads_resume hsuits hheap (fun _ => .error failure pool) fun _ => huntouched

include h

theorem leads_arrive {page : Page}
    (hpage : session.pool.Reads .free task.operation.request.page page) :
    session.Leads task.id task.call task.operation.sought? (session.arrive task page) := by
  obtain ⟨_, data, hlength, rfl⟩ := hpage
  refine leads_resume hsuits hheap _ ?_
  have hinstall := (h.ends_install task.call.tx (fun _ => False) ⟨nofun, data, hlength, rfl⟩).and
    (ends_install_untouched task.operation.request.page data session.pool)
  refine hinstall.bind ?_ fun _ _ hafter _ => hafter.2
  intro ref middle hmiddle
  obtain ⟨⟨hdrifts, hlocks, hpeek⟩, huntouched⟩ := hmiddle
  have hsuits' := hsuits.of_table_eq hdrifts (congrArg LockManager.table hlocks)
  exact (hdrifts.tidy.ends_proceed_passes hsuits' hheap hpeek).mono
    (fun _ _ hafter => hafter.of_untouched huntouched)
    fun _ _ hafter herror => huntouched.trans (hafter herror)

include htask

theorem leads_granted :
    session.Leads task.id task.call task.operation.sought? (session.granted task) := by
  have hfetch := (h.ends_fetch task.call.tx (fun _ => False) task.operation.request.page).and
    (ends_fetch_untouched task.operation.request.page session.pool)
  unfold Ends at hfetch
  unfold Session.granted
  split
  · next hgoal =>
    rw [hgoal] at hheap
    exact hheap.elim
  split
  · next failure pool hrun =>
    rw [hrun] at hfetch
    exact leads_fail hsuits hheap hfetch.2
  · next ref pool hrun =>
    rw [hrun] at hfetch
    obtain ⟨⟨hdrifts, hlocks, hpeek⟩, huntouched⟩ := hfetch
    have hsuits' := hsuits.of_table_eq hdrifts (congrArg LockManager.table hlocks)
    exact (@leads_resume { session with pool } task hsuits' hheap (task.operation.proceed ref)
      (hdrifts.tidy.ends_proceed_passes hsuits' hheap hpeek)).of_untouched huntouched rfl
  · next page pool hrun =>
    rw [hrun] at hfetch
    obtain ⟨⟨hdrifts, hlocks, _, hpage⟩, huntouched⟩ := hfetch
    have hsuits' := hsuits.of_table_eq hdrifts (congrArg LockManager.table hlocks)
    dsimp only
    split
    · exact (@leads_setWait { session with pool } task htask hheap _).of_untouched huntouched rfl
    · exact (@leads_arrive { session with pool } task hdrifts.tidy hsuits' hheap page
        hpage).of_untouched huntouched rfl

theorem leads_attempt (budget : Budget) :
    session.Leads task.id task.call task.operation.sought? (session.attempt task budget) := by
  have hlocks : ∀ locks, session.pool.Untouched { session.pool with locks } := fun _ =>
    .of_eq rfl rfl rfl rfl
  have hcases := session.pool.locks.attempt_cases task.operation.request budget session.now
  unfold Session.attempt
  split
  · next locks hattempt =>
    rw [hattempt] at hcases
    rcases hcases with ⟨_, hfree, htable⟩ | ⟨hne, _⟩
    · have hdrifts : Drifts .free task.operation.request.tx (fun _ => False) session.pool
          { session.pool with locks } := .grant h hfree htable
      exact (@leads_granted (session.withLocks locks) task hdrifts.tidy htask
        (hsuits.granted h hfree htable) hheap).of_untouched (hlocks locks) rfl
    · exact absurd rfl hne
  · next locks _ =>
    exact (@leads_setWait (session.withLocks locks) task htask hheap _).of_untouched
      (hlocks locks) rfl
  · next locks _ => exact leads_fail hsuits hheap (hlocks locks)

theorem leads_evaluate :
    session.Leads task.id task.call task.operation.sought? (session.evaluate task) := by
  have hentered : session.pool.Untouched
      { session.pool with locks := session.pool.locks.enter task.operation.request.tx } :=
    .of_eq rfl rfl rfl rfl
  have hdrifts : Drifts .free task.call.tx (fun _ => False) session.pool
      { session.pool with locks := session.pool.locks.enter task.operation.request.tx } :=
    .locks_of_table h _ rfl
  have hsuits' := hsuits.of_table_eq hdrifts rfl
  unfold Session.evaluate
  dsimp only
  split
  · next budget _ =>
    exact (@leads_attempt (session.withLocks _) task hdrifts.tidy htask hsuits' hheap
      budget).of_untouched hentered rfl
  · exact leads_fail hsuits hheap hentered

end Resumed

/-- The call goes on at its own events. -/
theorem leads_react (h : session.Tidy .free) (htask : session.task? id = some task)
    (hheap : task.operation.goal.OnHeap) {event : Event}
    (hevent : event = .evaluate id ∨ (∃ timedOut elapsed, event = .wake id timedOut elapsed) ∨
      event = .load id) :
    session.Leads id task.call task.operation.sought? (session.react event) := by
  obtain ⟨hmem, rfl⟩ := task?_mem htask
  have hsuits := h.suits task hmem
  have hstays : session.Leads task.id task.call task.operation.sought? session :=
    .on htask rfl hheap (.stay (.refl _))
  rcases hevent with rfl | ⟨timedOut, elapsed, rfl⟩ | rfl
  all_goals
    simp only [react, htask]
    split
  · exact leads_evaluate h.tidy htask hsuits.suits hheap
  · exact hstays
  · next budget _ _ =>
    exact (@leads_attempt { session with now := session.now + elapsed } task h.tidy htask
      hsuits.suits hheap (budget.afterWait timedOut)).of_untouched (.refl _) rfl
  · exact hstays
  · next page hwait => exact leads_arrive h.tidy hsuits.suits hheap (hsuits.reads hwait)
  · exact hstays

theorem leads_start (hfree : session.task? id = none) (hchange : call.deed = .change)
    (hheap : ∀ {table}, session.pool.Concerns call table → ∃ layout, table.kind = .heap layout) :
    session.Leads id call (session.pool.sought? call) (session.start id call) := by
  unfold Session.start
  rw [hfree]
  exact leads_after session id call.start ((ends_start_passes hchange hheap).mono
    (fun _ _ hafter => hafter) fun _ _ hafter _ => hafter)

end Session

/-- The turns at which a call goes on after its start. -/
def Turn.moves (id : Nat) : Turn → Bool
  | .event (.evaluate other) | .event (.wake other _ _) | .event (.load other) => other = id
  | _ => false

theorem Turn.exists_of_moves {id : Nat} {turn : Turn} (h : turn.moves id = true) :
    ∃ event, turn = .event event ∧ (event = .evaluate id ∨
      (∃ timedOut elapsed, event = .wake id timedOut elapsed) ∨ event = .load id) := by
  unfold moves at h
  split at h
  · next other => exact ⟨_, rfl, .inl (by simpa using h)⟩
  · next other timedOut elapsed =>
    exact ⟨_, rfl, .inr (.inl ⟨timedOut, elapsed, by simpa using h⟩)⟩
  · next other => exact ⟨_, rfl, .inr (.inr (by simpa using h))⟩
  · cases h

namespace Session

section Others

variable {session : Session} {id : Nat}

theorem task?_after_of_ne {other : Nat} (hother : other ≠ id) (call : Call) (tuple : Option Tuple)
    (result : EStateM.Result Failure Pool Step) :
    (session.after other call tuple result).task? id = session.task? id := by
  have hkept : (session.tasks.filter fun task => task.id ≠ other).find? (fun task => task.id = id) =
      session.tasks.find? fun task => task.id = id := by
    rw [List.find?_filter]
    congr 1
    funext task
    grind
  unfold Session.after
  split
  · exact hkept
  · rw [task?, suspend, List.find?_append, hkept, task?]
    simp [hother]
  · exact hkept

variable {other : Task} (hother : other.id ≠ id)
include hother

theorem task?_setWait_of_ne (wait : Wait) :
    (session.setWait other wait).task? id = session.task? id := by
  have hid : (fun task : Task => decide (task.id = id)) ∘
      (fun task => if task.id = other.id then { other with wait } else task) =
        fun task => decide (task.id = id) := by
    funext task
    by_cases hsame : task.id = other.id <;> simp [hsame]
  rw [task?, setWait, List.find?_map, hid, task?]
  cases hfound : session.tasks.find? fun task => decide (task.id = id) with
  | none => rfl
  | some task =>
      have htask : task.id = id := by simpa using List.find?_some hfound
      simp [htask, Ne.symm hother]

theorem task?_granted_of_ne : (session.granted other).task? id = session.task? id := by
  unfold granted
  split
  · exact task?_after_of_ne hother ..
  split
  · exact task?_after_of_ne hother ..
  · exact task?_after_of_ne hother ..
  · dsimp only
    split
    · exact task?_setWait_of_ne hother _
    · exact task?_after_of_ne hother ..

theorem task?_attempt_of_ne (budget : Budget) :
    (session.attempt other budget).task? id = session.task? id := by
  unfold attempt
  split
  · exact task?_granted_of_ne hother
  · exact task?_setWait_of_ne hother _
  · exact task?_after_of_ne hother ..

theorem task?_evaluate_of_ne : (session.evaluate other).task? id = session.task? id := by
  unfold evaluate
  dsimp only
  split
  · exact task?_attempt_of_ne hother _
  · exact task?_after_of_ne hother ..

end Others

/-- Another call goes on, starts or ends, and a command is carried out. -/
theorem task?_react_of_others {session : Session} {id : Nat} (hpending : (session.task? id).isSome)
    {event : Event} (hothers : (Turn.event event).moves id = false) :
    (session.react event).task? id = session.task? id := by
  have hapart : ∀ {other moved}, session.task? other = some moved → other ≠ id →
      moved.id ≠ id := fun hmoved hne => (task?_mem hmoved).2 ▸ hne
  cases event with
  | start other call =>
      simp only [react, Session.start]
      split
      · rfl
      · next hfree =>
        refine task?_after_of_ne (fun hsame => ?_) ..
        rw [hsame] at hfree
        rw [hfree] at hpending
        cases hpending
  | evaluate other =>
      simp only [react]
      split
      · next moved hmoved =>
        have hne := hapart hmoved (by simpa [Turn.moves] using hothers)
        split
        · exact task?_evaluate_of_ne hne
        · rfl
      · rfl
  | wake other timedOut elapsed =>
      simp only [react]
      split
      · next moved hmoved =>
        have hne := hapart hmoved (by simpa [Turn.moves] using hothers)
        split
        · exact task?_attempt_of_ne hne _
        · rfl
      · rfl
  | load other =>
      simp only [react]
      split
      · next moved hmoved =>
        have hne := hapart hmoved (by simpa [Turn.moves] using hothers)
        split
        · exact task?_after_of_ne hne ..
        · rfl
      · rfl
  | command command => exact congrArg (List.find? _) (tasks_execute session command)

/-- The turns of others leave a call where it is. -/
theorem task?_turn {session : Session} {id : Nat} {task : Task}
    (htask : session.task? id = some task) {turn : Turn} (hturn : turn.moves id = false) :
    ∃ kept, (session.turn turn).task? id = some kept ∧ kept.call = task.call ∧
      kept.operation = task.operation := by
  have hdelivered : ∀ {after : Session}, after.task? id = session.task? id →
      ∃ kept, after.deliver.task? id = some kept ∧ kept.call = task.call ∧
        kept.operation = task.operation := by
    intro after hafter
    refine ⟨notifyTask after.pool.locks task, ?_, (notifyTask_same ..).2⟩
    rw [task?_deliver, hafter, htask]
    rfl
  cases turn with
  | event event => exact hdelivered (task?_react_of_others (htask ▸ rfl) hturn)
  | register table =>
      change ∃ kept, (session.perform (addTable table)).2.task? id = some kept ∧ _
      unfold perform
      split
      · exact @hdelivered { session with pool := _ } rfl
      · exact @hdelivered { session with pool := _ } rfl
  | guard ref latch => exact ⟨task, htask, rfl, rfl⟩
  | storage volumes => exact ⟨task, htask, rfl, rfl⟩

/-- The call is under way until the last of some turns has come. -/
def Awaits (session : Session) (id : Nat) : List Turn → Prop
  | [] => True
  | turn :: rest => (session.task? id).isSome ∧ (session.turn turn).Awaits id rest

theorem Awaits.eq_nil {session : Session} {id : Nat} {turns : List Turn}
    (h : session.Awaits id turns) (hgone : session.task? id = none) : turns = [] := by
  cases turns with
  | nil => rfl
  | cons turn rest =>
      have hpending : (session.task? id).isSome := h.1
      rw [hgone] at hpending
      cases hpending

/-- What a call does in the course of some turns: the pool before each turn at which it goes on, and
the pool after it. -/
def stretches (session : Session) (id : Nat) : List Turn → List (Pool × Pool)
  | [] => []
  | turn :: rest =>
      let after := session.turn turn
      if turn.moves id then (session.pool, after.pool) :: after.stretches id rest
      else after.stretches id rest

end Session

/-- A call has appended a page in one stretch, by which it had found some pages full, and has left
the data alone in all others. -/
def Appended (call : Call) (layout : Layout) (pages : List PageId)
    (stretches : List (Pool × Pool)) : Prop :=
  ∃ left before after right, stretches = left ++ (before, after) :: right ∧
    before.Adds call after ∧ (∀ stretch ∈ left ++ right, stretch.1.Untouched stretch.2) ∧
    ∀ page ∈ pages, ∃ stretch ∈ left ++ [(before, after)], stretch.2.FullAt layout page

/-- A call has left the data alone all the time, but for one page that it may have appended once
it had looked at the pages that it sought, and found them full. -/
def LeftAlone (call : Call) (sought : Option (Layout × List PageId))
    (stretches : List (Pool × Pool)) : Prop :=
  (∀ stretch ∈ stretches, stretch.1.Untouched stretch.2) ∨
    ∃ layout pages, sought = some (layout, pages) ∧ Appended call layout pages stretches

theorem LeftAlone.untouched {call : Call} {stretches : List (Pool × Pool)}
    (h : LeftAlone call none stretches) : ∀ stretch ∈ stretches, stretch.1.Untouched stretch.2 :=
  h.resolve_right fun ⟨_, _, hnone, _⟩ => nomatch hnone

theorem LeftAlone.cons {call : Call} {sought : Option (Layout × List PageId)}
    {before after : Pool} {rest : List (Pool × Pool)} (h : LeftAlone call sought rest)
    (huntouched : before.Untouched after) : LeftAlone call sought ((before, after) :: rest) := by
  rcases h with hall | ⟨layout, pages, hsought, left, first, last, right, rfl, hadds, hall, hfull⟩
  · exact .inl (List.forall_mem_cons.2 ⟨huntouched, hall⟩)
  · refine .inr ⟨layout, pages, hsought, (before, after) :: left, first, last, right, rfl, hadds,
      List.forall_mem_cons.2 ⟨huntouched, hall⟩, fun page hpage => ?_⟩
    obtain ⟨stretch, hmem, hfull⟩ := hfull page hpage
    exact ⟨stretch, List.mem_cons_of_mem _ hmem, hfull⟩

/-- A stretch that gets on, and what the call does after it. -/
theorem LeftAlone.of_progress {call : Call} {sought next : Option (Layout × List PageId)}
    {before after : Pool} {rest : List (Pool × Pool)} (hrest : LeftAlone call next rest)
    (h : before.Progress call after sought next) :
    LeftAlone call sought ((before, after) :: rest) := by
  induction h with
  | stay huntouched => exact hrest.cons huntouched
  | leave huntouched => exact .inl (List.forall_mem_cons.2 ⟨huntouched, hrest.untouched⟩)
  | append hadds => exact .inr ⟨_, _, rfl, [], _, _, rest, rfl, hadds, hrest.untouched,
      by simp⟩
  | @full layout page pages next hpage _ ih =>
      rcases ih hrest with
        hall | ⟨_, _, hsought, left, first, last, right, hsplit, hadds, hall, hfull⟩
      · exact .inl hall
      · cases hsought
        refine .inr ⟨_, _, rfl, left, first, last, right, hsplit, hadds, hall, ?_⟩
        refine List.forall_mem_cons.2 ⟨⟨(before, after), ?_, hpage⟩, hfull⟩
        -- the stretch comes first of all
        cases left with
        | nil => exact List.mem_singleton.2 (List.cons.inj hsplit).1
        | cons head _ => exact List.mem_cons.2 (.inl (List.cons.inj hsplit).1)

namespace Session

/-- What is left of a call that has been refused. -/
structure Refused (call : Call) (sought : Option (Layout × List PageId)) (tuple : Option Tuple)
    (stretches : List (Pool × Pool)) : Prop where
  tuple_eq : tuple = call.inserted?
  leftAlone : LeftAlone call sought stretches

variable {id : Nat} {turns : List Turn} {error : Error} {tuple : Option Tuple}

/-- An event of a call that is refused after some more turns, if what is left of the turns is known
wherever the call goes on. -/
theorem Leads.refused {before after : Session} {call : Call}
    {sought : Option (Layout × List PageId)} (h : before.Leads id call sought after)
    (hawaits : after.Awaits id turns)
    (houtcome : (after.takes turns).outcome? id = some ⟨.error (.error error), tuple⟩)
    (hrest : ∀ {task}, after.task? id = some task → task.operation.goal.OnHeap →
      Refused task.call task.operation.sought? tuple (after.stretches id turns)) :
    Refused call sought tuple ((before.pool, after.pool) :: after.stretches id turns) := by
  cases h with
  | @on next hnext hcall hheap hprogress =>
      obtain ⟨htuple, hleft⟩ := hrest hnext hheap
      rw [hcall] at htuple hleft
      exact ⟨htuple, hleft.of_progress hprogress⟩
  | @ended outcome hgone hlog hrefused =>
      obtain rfl := hawaits.eq_nil hgone
      have hresult : outcome = ⟨.error (.error error), tuple⟩ :=
        Option.some.inj ((outcome?_of_log hlog).symm.trans houtcome)
      subst hresult
      obtain ⟨htuple, huntouched⟩ := hrefused error rfl
      exact ⟨htuple, .inl (List.forall_mem_singleton.2 huntouched)⟩

/-- From a request on to the refusal of a call. -/
theorem refused_of_awaits {session : Session} (h : session.Tidy .free) {task : Task}
    (htask : session.task? id = some task) (hheap : task.operation.goal.OnHeap)
    (hawaits : session.Awaits id turns) (hended : (session.takes turns).task? id = none)
    (houtcome : (session.takes turns).outcome? id = some ⟨.error (.error error), tuple⟩) :
    Refused task.call task.operation.sought? tuple (session.stretches id turns) := by
  induction turns generalizing session task with
  | nil =>
      rw [show session.takes [] = session from rfl, htask] at hended
      cases hended
  | cons turn rest ih =>
      have htidy : (session.turn turn).Tidy .free := h.turn (session.abides_free [turn]).1
      -- the turns of others do not count, and leave the task as it is
      by_cases hmoves : turn.moves id = true
      · obtain ⟨event, rfl, hevent⟩ := Turn.exists_of_moves hmoves
        have hstretches : session.stretches id (.event event :: rest) =
            (session.pool, (session.step event).pool) ::
              (session.step event).stretches id rest := by
          simp only [stretches, hmoves, if_true]
          rfl
        have hleads : session.Leads id task.call task.operation.sought? (session.step event) :=
          (leads_react h htask hheap hevent).deliver
        rw [hstretches]
        exact hleads.refused hawaits.2 houtcome fun hnext hheap =>
          ih htidy hnext hheap hawaits.2 hended houtcome
      · have hmoves : turn.moves id = false := by simpa using hmoves
        obtain ⟨kept, hkept, hcall, hoperation⟩ := task?_turn htask hmoves
        have hrest := ih htidy hkept (hoperation ▸ hheap) hawaits.2 hended houtcome
        have hsame :
            session.stretches id (turn :: rest) = (session.turn turn).stretches id rest := by
          simp [stretches, hmoves]
        rw [hsame, ← hcall, ← hoperation]
        exact hrest

/-- **Refused changes leave no trace.** Whatever others do meanwhile: if an insertion into a heap
table or a deletion from one ends with an error, then all that it has done by itself, event by
event, has left every stored byte and every page object as it was, but for one page of zeros that an
insertion may have appended, after it had looked at every page that the table had when the call
began and had found it full. Its tuple has the record id that it came with. -/
theorem refused_change_traceless {session : Session} (h : session.Reachable .free) {id : Nat}
    {call : Call} (hfree : session.task? id = none) (hchange : call.deed = .change)
    (hheap : ∀ {table}, session.pool.Concerns call table → ∃ layout, table.kind = .heap layout)
    {turns : List Turn} (hawaits : (session.step (.start id call)).Awaits id turns)
    (hended : ((session.step (.start id call)).takes turns).task? id = none) {error : Error}
    {tuple : Option Tuple}
    (houtcome : ((session.step (.start id call)).takes turns).outcome? id =
      some ⟨.error (.error error), tuple⟩) :
    tuple = call.inserted? ∧
      LeftAlone call (session.pool.sought? call)
        ((session.pool, (session.step (.start id call)).pool) ::
          (session.step (.start id call)).stretches id turns) := by
  have htidy : (session.step (.start id call)).Tidy .free := h.tidy.step trivial
  have hleads : session.Leads id call (session.pool.sought? call) (session.step (.start id call)) :=
    (leads_start hfree hchange hheap).deliver
  have hrefused := hleads.refused hawaits houtcome fun htask hheap =>
    refused_of_awaits htidy htask hheap hawaits hended houtcome
  exact ⟨hrefused.tuple_eq, hrefused.leftAlone⟩

end Session

/-- A pool over an empty heap table whose tuples have two cells. -/
def Pool.blankHeap : Pool where
  pageSize := 64
  cache := { capacity := 1, entries := [] }
  frames := .empty
  locks := .new .default .plain
  tables :=
    [{ id := 1273768649, volume := 0, kind := .heap { schema := { fields := 2 }, pageSize := 64 } }]
  volumes := [.ofMedium (.file .empty)]

/-- A tuple of one cell. -/
def misfit : Tuple :=
  { cells := [7], rid := none }

namespace Session

/-- The page that has been appended for a tuple that does not fit the table. -/
theorem refused_change_appends :
    let before := ofPool .blankHeap 0
    let after := before.run [.start 0 (.insert 1 1273768649 misfit), .evaluate 0]
    after.outcome? 0 =
        some ⟨.error (.error (.schemaMismatch misfit { fields := 2 })), some misfit⟩ ∧
      (before.pool.volume 0).pageCount 64 = .ok 0 ∧ (after.pool.volume 0).pageCount 64 = .ok 1 := by
  refine ⟨?_, ?_, ?_⟩ <;> cbv

theorem refused_change_traceless_misfit :
    let begun := (ofPool .blankHeap 0).step (.start 0 (.insert 1 1273768649 misfit))
    some misfit = (Call.insert 1 1273768649 misfit).inserted? ∧
      LeftAlone (.insert 1 1273768649 misfit) (Pool.blankHeap.sought? (.insert 1 1273768649 misfit))
        ((Pool.blankHeap, begun.pool) :: begun.stretches 0 [.event (.evaluate 0)]) := by
  intro begun
  have hunused : Pool.blankHeap.Unused .free := ⟨rfl, fun _ => rfl, nofun⟩
  have htable : Pool.blankHeap.table? 1273768649 = Pool.blankHeap.tables[0]? := by decide_cbv
  have hawaits : begun.Awaits 0 [.event (.evaluate 0)] := ⟨by decide_cbv, trivial⟩
  have houtcome : (begun.takes [.event (.evaluate 0)]).outcome? 0 =
      some ⟨.error (.error (.schemaMismatch misfit { fields := 2 })), some misfit⟩ := by cbv
  refine refused_change_traceless ⟨.blankHeap, 0, [], hunused, trivial, rfl⟩ rfl rfl ?_ hawaits
    (by cbv) houtcome
  intro table hconcerns
  cases htable.symm.trans hconcerns
  exact ⟨_, rfl⟩

end Session

end PagePool
