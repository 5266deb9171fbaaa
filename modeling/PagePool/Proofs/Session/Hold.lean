import PagePool.Proofs.Pool.Hold
import PagePool.Proofs.Session.Likeness
import PagePool.Proofs.Session.Loans
import PagePool.Proofs.Session.Scan

/-!
# The pool adds nothing to a change of a heap table

Two runs differ in who is asked for a change, the pool or the table. They come to the same: the same
pool, the same requests, the same results. Whatever else happens in between happens in both.

A change runs from the grant of its lock to its end without a break, unless the read of its page is
held up. While it is, somebody else may take the lock away from the transaction. Where transactions
do one thing at a time nobody does, and elsewhere it is asked for.
-/

namespace PagePool

open LockRecord Pool

structure Task.Own (task own : Task) : Prop where
  id_eq : own.id = task.id
  call : task.call.Own own.call
  operation : own.operation = task.operation ∨ own.operation = task.operation.alone
  wait_eq : own.wait = task.wait

inductive Entry.Own : Entry → Entry → Prop where
  | call (id : Nat) {call own : Call} (hcall : call.Own own) (outcome : Outcome) :
      Entry.Own (.call id call outcome) (.call id own outcome)
  | command (command : Command) (result : Except Failure Answer) :
      Entry.Own (.command command result) (.command command result)

/-- The same has happened in two sessions, but that some calls have gone to tables instead of the
pool. -/
structure Session.Own (session own : Session) : Prop where
  pool_eq : own.pool = session.pool
  now_eq : own.now = session.now
  handles_eq : own.handles = session.handles
  tasks : List.Forall₂ Task.Own session.tasks own.tasks
  log : List.Forall₂ Entry.Own session.log own.log

/-- The same event, or a change for which its table is asked instead of the pool. -/
inductive Event.Own (pool : Pool) : Event → Event → Prop where
  | same (event : Event) : Event.Own pool event event
  | start (id : Nat) {call own : Call} (hcall : call.Own own)
      (hconcerns : ∀ table, pool.Concerns own table → pool.Concerns call table) :
      Event.Own pool (.start id call) (.start id own)

namespace Task.Own

variable {task own : Task}

theorem request_eq (h : task.Own own) : own.operation.request = task.operation.request := by
  rcases h.operation with heq | heq
  · rw [heq]
  · rw [heq]
    rfl

theorem inserted?_eq (h : task.Own own) :
    own.operation.goal.inserted? = task.operation.goal.inserted? := by
  rcases h.operation with heq | heq
  · rw [heq]
  · rw [heq]
    obtain ⟨request, goal⟩ := task.operation
    cases goal <;> rfl

theorem lock_iff (h : task.Own own) :
    own.operation.goal = .lock ↔ task.operation.goal = .lock := by
  rcases h.operation with heq | heq
  · rw [heq]
  · rw [heq]
    obtain ⟨request, goal⟩ := task.operation
    cases goal <;> simp [Operation.alone, Goal.alone]

theorem proceed (h : task.Own own) {pool : Pool} {ref : PageRef}
    (hhand : task.operation.goal.Changes →
      pool.AtHand task.operation.request.tx task.operation.request.page ref) :
    Continues (task.operation.proceed ref pool) (own.operation.proceed ref pool) := by
  rcases h.operation with heq | heq
  · rw [heq]
    exact .same _
  · rw [heq]
    exact .proceed hhand

end Task.Own

namespace Session

variable {session own : Session} {task ownTask : Task}

theorem granted_of_ne (hgoal : task.operation.goal ≠ .lock) :
    session.granted task = match fetch task.operation.request.page session.pool with
      | .error failure pool => session.resume task (.error failure pool)
      | .ok (.resident ref) pool => session.resume task (task.operation.proceed ref pool)
      | .ok (.loaded found) pool =>
          if pool.isGated found.id then { session with pool }.setWait task (.reading found)
          else { session with pool }.arrive task found := by
  unfold granted
  split
  · next hlock => exact absurd hlock hgoal
  · rfl

namespace Own

theorem refl (session : Session) : session.Own session where
  pool_eq := rfl
  now_eq := rfl
  handles_eq := rfl
  tasks := List.forall₂_same.2 fun task _ => ⟨rfl, .same _, .inl rfl, rfl⟩
  log := List.forall₂_same.2 fun entry _ => by
    cases entry with
    | call id call outcome => exact .call id (.same call) outcome
    | command command result => exact .command command result

variable (h : session.Own own)
include h

theorem withPool (pool : Pool) : Own { session with pool } { own with pool } :=
  ⟨rfl, h.now_eq, h.handles_eq, h.tasks, h.log⟩

theorem withLocks (locks : LockManager) : (session.withLocks locks).Own (own.withLocks locks) where
  pool_eq := by simp only [Session.withLocks, h.pool_eq]
  now_eq := h.now_eq
  handles_eq := h.handles_eq
  tasks := h.tasks
  log := h.log

theorem ended (id : Nat) : List.Forall₂ Task.Own (session.tasks.filter fun task => task.id ≠ id)
    (own.tasks.filter fun task => task.id ≠ id) := by
  refine List.rel_filter (fun task ownTask htask => ?_) h.tasks
  simp only [htask.id_eq]

theorem close (id : Nat) {call ownCall : Call} (hcall : call.Own ownCall) (outcome : Outcome) :
    (session.close id call outcome).Own (own.close id ownCall outcome) where
  pool_eq := h.pool_eq
  now_eq := h.now_eq
  handles_eq := by
    have hhandles := h.handles_eq
    cases hcall with
    | same => simp only [Session.close, handOut, hhandles]
    | insert | delete => exact hhandles
  tasks := h.ended id
  log := .cons (.call id hcall outcome) h.log

theorem suspend (id : Nat) {call ownCall : Call} (hcall : call.Own ownCall)
    {operation ownOperation : Operation}
    (hoperation : ownOperation = operation ∨ ownOperation = operation.alone) :
    (session.suspend id call operation).Own (own.suspend id ownCall ownOperation) where
  pool_eq := by
    have htx : ownOperation.request = operation.request := by
      rcases hoperation with rfl | rfl <;> rfl
    simp only [Session.suspend, h.pool_eq, htx]
  now_eq := h.now_eq
  handles_eq := h.handles_eq
  tasks := List.rel_append (h.ended id) (.cons ⟨rfl, hcall, hoperation, rfl⟩ .nil)
  log := h.log

/-- A stretch that ends the same, but for what is asked next. -/
theorem after (id : Nat) {call ownCall : Call} (hcall : call.Own ownCall) (tuple : Option Tuple)
    {result ownResult : EStateM.Result Failure Pool Step}
    (hresult : Continues result ownResult) :
    (session.after id call tuple result).Own (own.after id ownCall tuple ownResult) := by
  cases hresult with
  | ask operation pool => exact (h.withPool pool).suspend id hcall (.inr rfl)
  | same =>
      cases result with
      | error failure pool => exact (h.withPool pool).close id hcall _
      | ok step pool =>
          cases step with
          | ask operation => exact (h.withPool pool).suspend id hcall (.inl rfl)
          | done outcome => exact (h.withPool pool).close id hcall outcome

theorem resume (htask : task.Own ownTask) {result ownResult : EStateM.Result Failure Pool Step}
    (hresult : Continues result ownResult) :
    (session.resume task result).Own (own.resume ownTask ownResult) := by
  unfold Session.resume
  rw [htask.id_eq, htask.inserted?_eq]
  exact h.after task.id htask.call _ hresult

theorem setWait (htask : task.Own ownTask) (wait : Wait) :
    (session.setWait task wait).Own (own.setWait ownTask wait) where
  pool_eq := h.pool_eq
  now_eq := h.now_eq
  handles_eq := h.handles_eq
  tasks := by
    refine List.rel_map (fun other ownOther hother => ?_) h.tasks
    rw [hother.id_eq, htask.id_eq]
    split
    · exact ⟨rfl, htask.call, htask.operation, rfl⟩
    · exact hother
  log := h.log

theorem task? (id : Nat) : (session.task? id = none ∧ own.task? id = none) ∨
    ∃ task ownTask, session.task? id = some task ∧ own.task? id = some ownTask ∧
      task.Own ownTask :=
  Likeness.rel_find? h.tasks fun task ownTask htask => by rw [htask.id_eq]

theorem deliver : session.deliver.Own own.deliver where
  pool_eq := by simp only [Session.deliver, h.pool_eq]
  now_eq := h.now_eq
  handles_eq := h.handles_eq
  tasks := by
    refine List.rel_map (fun task ownTask htask => ?_) h.tasks
    unfold notifyTask
    rw [htask.wait_eq, htask.request_eq, h.pool_eq]
    split
    · exact ⟨htask.id_eq, htask.call, htask.operation, rfl⟩
    · exact htask
  log := h.log

theorem execute (command : Command) : (session.execute command).Own (own.execute command) := by
  have haction : own.action command = session.action command := by
    have hhandle : own.onHandle = session.onHandle := by
      funext handle step
      simp only [onHandle, handle?, h.handles_eq]
    cases command <;> simp only [action, hhandle]
  unfold Session.execute
  rw [haction, h.pool_eq]
  split
  · exact ⟨rfl, h.now_eq, h.handles_eq, h.tasks, .cons (.command ..) h.log⟩
  · exact ⟨rfl, h.now_eq, h.handles_eq, h.tasks, .cons (.command ..) h.log⟩

section Going

variable {regime : Regime} (htask : task.Own ownTask) (htidy : session.pool.Tidy regime)
include htask htidy

theorem arrive {page : Page} (hpage : session.pool.Reads regime task.operation.request.page page)
    (howner : task.operation.goal.Changes →
      OwnedBy (session.pool.locks.table.records task.operation.request.page)
        task.operation.request.tx) :
    (session.arrive task page).Own (own.arrive ownTask page) := by
  unfold Session.arrive
  rw [h.pool_eq]
  exact h.resume htask (.bind fun _ _ hrun =>
    htask.proceed fun hchanges => htidy.atHand_install hpage hrun (howner hchanges))

theorem granted (howner : task.operation.goal.Changes →
      OwnedBy (session.pool.locks.table.records task.operation.request.page)
        task.operation.request.tx) :
    (session.granted task).Own (own.granted ownTask) := by
  by_cases hgoal : task.operation.goal = .lock
  · unfold Session.granted
    simp only [hgoal, htask.lock_iff.2 hgoal, h.pool_eq]
    exact h.resume htask (.same _)
  rw [granted_of_ne hgoal, granted_of_ne (hgoal ∘ htask.lock_iff.1), htask.request_eq, h.pool_eq]
  split
  · exact h.resume htask (.same _)
  · next ref pool hrun =>
    exact h.resume htask (htask.proceed fun hchanges => htidy.atHand_fetch hrun (howner hchanges))
  · next page pool hrun =>
    obtain ⟨hdrifts, hlocks, _, hreads⟩ := (htidy.ends_fetch task.operation.request.tx
      (fun _ => False) task.operation.request.page).of_ok hrun
    split
    · exact (h.withPool pool).setWait htask _
    · refine (h.withPool pool).arrive htask hdrifts.tidy hreads ?_
      rw [hlocks]
      exact howner

variable (hsuits : task.operation.Suits regime session.pool task.call)
include hsuits

/-- A change that is granted its lock has it exclusively. -/
theorem attempt (budget : Budget) :
    (session.attempt task budget).Own (own.attempt ownTask budget) := by
  have hcases := session.pool.locks.attempt_cases task.operation.request budget session.now
  unfold Session.attempt
  rw [htask.request_eq, h.pool_eq, h.now_eq]
  split
  · next locks hattempt =>
    rw [hattempt] at hcases
    rcases hcases with ⟨_, hfree, htable⟩ | ⟨hne, _⟩
    · have hdrifts : Drifts regime task.operation.request.tx (fun _ => False) session.pool
          { session.pool with locks } := .grant htidy hfree htable
      refine (h.withLocks locks).granted htask hdrifts.tidy fun hchanges => ?_
      exact (ownedBy_granted hfree htable).2 (.inr ⟨rfl, rfl, hsuits.exclusive hchanges⟩)
    · exact absurd rfl hne
  · next locks hattempt => exact (h.withLocks locks).setWait htask _
  · next error locks hattempt => exact h.resume htask (.same _)

theorem evaluate : (session.evaluate task).Own (own.evaluate ownTask) := by
  have hentered := h.withLocks (session.pool.locks.enter task.operation.request.tx)
  have hdrifts : ∀ tx, Drifts regime tx (fun _ => False) session.pool
      { session.pool with locks := session.pool.locks.enter task.operation.request.tx } :=
    fun _ => .locks_of_table htidy _ rfl
  unfold Session.evaluate
  rw [htask.request_eq, h.pool_eq]
  dsimp only
  rw [hentered.pool_eq, hentered.now_eq]
  split
  · next budget _ =>
    exact hentered.attempt htask (hdrifts task.call.tx).tidy
      (hsuits.of_table_eq (hdrifts task.call.tx) rfl) budget
  · exact hentered.resume htask (.same _)

theorem wake (budget : Budget) (timedOut : Bool) (elapsed : Nat) :
    (session.wake task budget timedOut elapsed).Own
      (own.wake ownTask budget timedOut elapsed) := by
  have hlater : Own { session with now := session.now + elapsed }
      { own with now := own.now + elapsed } :=
    ⟨h.pool_eq, congrArg (· + elapsed) h.now_eq, h.handles_eq, h.tasks, h.log⟩
  exact hlater.attempt htask htidy hsuits _

end Going

theorem start (id : Nat) {call ownCall : Call} (hcall : call.Own ownCall)
    (hconcerns : ∀ table, session.pool.Concerns ownCall table → session.pool.Concerns call table) :
    (session.start id call).Own (own.start id ownCall) := by
  unfold Session.start
  rcases h.task? id with ⟨hnone, hnone'⟩ | ⟨task, ownTask, hsome, hsome', _⟩
  · rw [hnone, hnone', hcall.inserted?_eq, h.pool_eq]
    exact h.after id hcall _ (.start hcall hconcerns)
  · rw [hsome, hsome']
    exact h

end Own

/-- When a page comes that was held up, the transaction has the exclusive lock still that it was
granted on it. -/
def Undisturbed (session : Session) : Event → Prop
  | .load id => ∀ task, session.task? id = some task → task.operation.request.mode = .exclusive →
      session.pool.locks.table.mode? task.operation.request.tx task.operation.request.page =
        some .exclusive
  | _ => True

/-- Where transactions do one thing at a time, nobody disturbs. -/
theorem Tidy.owner {regime : Regime} (h : session.Tidy regime) {event : Event}
    (hundisturbed : regime = .free → session.Undisturbed event) {id : Nat}
    (hevent : event = .load id) (htask : session.task? id = some task) {page : Page}
    (hwait : task.wait = .reading page) (hchanges : task.operation.goal.Changes) :
    OwnedBy (session.pool.locks.table.records task.operation.request.page)
      task.operation.request.tx := by
  have hsuits := h.suits task (task?_mem htask).1
  have hmode := hsuits.suits.exclusive hchanges
  by_cases hfree : regime = .free
  · have hsame := hundisturbed hfree
    rw [hevent] at hsame
    exact LockTable.mode?_eq_exclusive_iff.1 (hsame task htask hmode)
  · rw [hsuits.suits.tx_eq]
    exact hsuits.owned hwait hfree hmode

theorem Own.step (h : session.Own own) {regime : Regime} (htidy : session.Tidy regime)
    {event ownEvent : Event} (hevent : event.Own session.pool ownEvent)
    (hundisturbed : regime = .free → session.Undisturbed event) :
    (session.step event).Own (own.step ownEvent) := by
  apply Own.deliver
  cases hevent with
  | start id hcall hconcerns => exact h.start id hcall hconcerns
  | same =>
      cases event with
      | start id call => exact h.start id (.same call) fun _ hconcerns => hconcerns
      | command command => exact h.execute command
      | evaluate id =>
          simp only [react]
          rcases h.task? id with ⟨hnone, hnone'⟩ | ⟨task, ownTask, hsome, hsome', htask⟩
          · rwa [hnone, hnone']
          have hsuits := htidy.suits task (task?_mem hsome).1
          simp only [hsome, hsome', htask.wait_eq]
          split
          · exact h.evaluate htask htidy.tidy hsuits.suits
          · exact h
      | wake id timedOut elapsed =>
          simp only [react]
          rcases h.task? id with ⟨hnone, hnone'⟩ | ⟨task, ownTask, hsome, hsome', htask⟩
          · rwa [hnone, hnone']
          have hsuits := htidy.suits task (task?_mem hsome).1
          simp only [hsome, hsome', htask.wait_eq]
          split
          · exact h.wake htask htidy.tidy hsuits.suits ..
          · exact h
      | load id =>
          simp only [react]
          rcases h.task? id with ⟨hnone, hnone'⟩ | ⟨task, ownTask, hsome, hsome', htask⟩
          · rwa [hnone, hnone']
          have hsuits := htidy.suits task (task?_mem hsome).1
          simp only [hsome, hsome', htask.wait_eq]
          split
          · next page hwait =>
            exact h.arrive htask htidy.tidy (hsuits.reads hwait)
              (htidy.owner hundisturbed rfl hsome hwait)
          · exact h

/-- Nobody disturbs a run. -/
def Calm (session : Session) : List Event → Prop
  | [] => True
  | event :: rest => session.Undisturbed event ∧ (session.step event).Calm rest

/-- A run with the same events, but that tables are asked for changes instead of the pool. -/
def Swaps (session : Session) : List Event → List Event → Prop
  | [], [] => True
  | event :: rest, ownEvent :: ownRest =>
      event.Own session.pool ownEvent ∧ (session.step event).Swaps rest ownRest
  | _, _ => False

theorem Own.run (h : session.Own own) {regime : Regime} (htidy : session.Tidy regime)
    {events ownEvents : List Event} (habides : session.Abides regime (events.map .event))
    (hcalm : regime = .free → session.Calm events) (hswaps : session.Swaps events ownEvents) :
    (session.run events).Own (own.run ownEvents) := by
  induction events generalizing session own ownEvents with
  | nil =>
      cases ownEvents with
      | nil => exact h
      | cons => exact hswaps.elim
  | cons event rest ih =>
      cases ownEvents with
      | nil => exact hswaps.elim
      | cons ownEvent ownRest =>
          exact ih (h.step htidy hswaps.1 fun hfree => (hcalm hfree).1) (htidy.turn habides.1)
            habides.2 (fun hfree => (hcalm hfree).2) hswaps.2

/-- A page is in the cache, or it is read and comes there. -/
inductive Fetches (id : PageId) (pool : Pool) (ref : PageRef) (after : Pool) : Prop where
  | resident (hfetch : fetch id pool = .ok (.resident ref) after)
  | loaded {page : Page} {middle : Pool} (hfetch : fetch id pool = .ok (.loaded page) middle)
      (hopen : middle.isGated page.id = false) (hinstall : install page middle = .ok ref after)

/-- An event gives a task its page, so that it goes on with it: the object of the page, and the pool
as it is then. -/
inductive Brings (session : Session) (task : Task) : Event → PageRef → Pool → Prop where
  | evaluate {budget : Budget} {locks : LockManager} {ref : PageRef} {after : Pool}
      (hwait : task.wait = .issued)
      (hbudget : Budget.start session.pool.locks.policy session.now = .ok budget)
      (hlock : (session.pool.locks.enter task.operation.request.tx).attempt task.operation.request
        budget session.now = (.granted, locks))
      (hfetches : Fetches task.operation.request.page { session.pool with locks } ref after) :
      session.Brings task (.evaluate task.id) ref after
  | wake {budget : Budget} {woken timedOut : Bool} {elapsed : Nat} {locks : LockManager}
      {ref : PageRef} {after : Pool} (hwait : task.wait = .blocked budget woken)
      (hlock : session.pool.locks.attempt task.operation.request (budget.afterWait timedOut)
        (session.now + elapsed) = (.granted, locks))
      (hfetches : Fetches task.operation.request.page { session.pool with locks } ref after) :
      session.Brings task (.wake task.id timedOut elapsed) ref after
  | load {page : Page} {ref : PageRef} {after : Pool} (hwait : task.wait = .reading page)
      (hinstall : install page session.pool = .ok ref after) :
      session.Brings task (.load task.id) ref after

section Brought

variable {session : Session} {task : Task} {regime : Regime} {pool after : Pool} {tx : TxId}
  {id : PageId} {ref : PageRef}

theorem Fetches.atHand (h : Fetches id pool ref after) (htidy : pool.Tidy regime)
    (howner : OwnedBy (pool.locks.table.records id) tx) : after.AtHand tx id ref := by
  cases h with
  | resident hfetch => exact htidy.atHand_fetch hfetch howner
  | loaded hfetch _ hinstall =>
      obtain ⟨hdrifts, hlocks, _, hreads⟩ := (htidy.ends_fetch tx (fun _ => False) id).of_ok hfetch
      exact hdrifts.tidy.atHand_install hreads hinstall (hlocks ▸ howner)

theorem arrive_of_install {found : Page} (hinstall : install found session.pool = .ok ref after) :
    session.arrive task found = session.resume task (task.operation.proceed ref after) := by
  simp only [arrive, bind, EStateM.bind, hinstall]

theorem Fetches.granted (h : Fetches task.operation.request.page session.pool ref after)
    (hgoal : task.operation.goal ≠ .lock) :
    session.granted task = session.resume task (task.operation.proceed ref after) := by
  rw [granted_of_ne hgoal]
  cases h with
  | resident hfetch => rw [hfetch]
  | @loaded found middle hfetch hopen hinstall =>
      rw [hfetch]
      dsimp only
      rw [hopen, if_neg Bool.false_ne_true, arrive_of_install hinstall]
      exact Likeness.resume_withPool session middle task _

theorem attempt_of_granted {budget : Budget} {locks : LockManager}
    (h : session.pool.locks.attempt task.operation.request budget session.now = (.granted, locks)) :
    session.attempt task budget = (session.withLocks locks).granted task := by
  simp only [attempt, h]

/-- The task goes on with the page that it is brought. -/
theorem Brings.react {event : Event} (h : session.Brings task event ref after)
    (htask : session.task? task.id = some task) (hgoal : task.operation.goal ≠ .lock) :
    ∃ now, session.react event =
      resume { session with now } task (task.operation.proceed ref after) := by
  cases h with
  | evaluate hwait hbudget hlock hfetches =>
      refine ⟨session.now, ?_⟩
      simp only [Session.react, htask, hwait]
      rw [evaluate_of_budget hbudget, attempt_of_granted hlock, Fetches.granted hfetches hgoal]
      exact Likeness.resume_withPool ..
  | @wake budget woken timedOut elapsed locks _ _ hwait hlock hfetches =>
      refine ⟨session.now + elapsed, ?_⟩
      have hattempt := @attempt_of_granted { session with now := session.now + elapsed } task _ _
        hlock
      simp only [Session.react, htask, hwait]
      exact hattempt.trans ((Fetches.granted hfetches hgoal).trans (Likeness.resume_withPool ..))
  | load hwait hinstall =>
      refine ⟨session.now, ?_⟩
      simp only [Session.react, htask, hwait]
      exact arrive_of_install hinstall

/-- A change comes to its page with the page at hand. -/
theorem Tidy.atHand (h : session.Tidy regime) (htask : session.task? task.id = some task)
    (hchanges : task.operation.goal.Changes) {event : Event}
    (hbrings : session.Brings task event ref after)
    (hundisturbed : regime = .free → session.Undisturbed event) :
    after.AtHand task.operation.request.tx task.operation.request.page ref := by
  have hsuits := h.suits task (task?_mem htask).1
  have hmode := hsuits.suits.exclusive hchanges
  have hgranted : ∀ (manager : LockManager) {locks : LockManager} {budget now},
      manager.table = session.pool.locks.table →
      manager.attempt task.operation.request budget now = (.granted, locks) →
      Fetches task.operation.request.page { session.pool with locks } ref after →
      after.AtHand task.operation.request.tx task.operation.request.page ref := by
    intro manager locks budget now hmanager hlock hfetches
    have hcases := manager.attempt_cases task.operation.request budget now
    rw [hlock, hmanager] at hcases
    obtain ⟨_, hfree, htable⟩ := hcases.resolve_right fun hne => hne.1 rfl
    have hdrifts : Drifts regime task.operation.request.tx (fun _ => False) session.pool
        { session.pool with locks } := .grant h.tidy hfree htable
    exact hfetches.atHand hdrifts.tidy
      ((ownedBy_granted hfree htable).2 (.inr ⟨rfl, rfl, hmode⟩))
  cases hbrings with
  | evaluate _ _ hlock hfetches => exact hgranted (session.pool.locks.enter _) rfl hlock hfetches
  | wake _ hlock hfetches => exact hgranted session.pool.locks rfl hlock hfetches
  | load hwait hinstall =>
      exact h.tidy.atHand_install (hsuits.reads hwait) hinstall
        (h.owner hundisturbed rfl htask hwait hchanges)

end Brought

/-- **The pool adds nothing.** When a heap table's own insertion or deletion has ended well, the
pool finds its page marked, locked and in front of the cache: its part does not fail and changes
nothing at all. So runs in which tables are asked for changes instead of the pool have the same
pools and the same results at every point. -/
theorem hold_adds_nothing {regime : Regime} {session : Session} (h : session.Reachable regime) :
    (∀ task event ref pool, session.task? task.id = some task → task.operation.goal.Changes →
      session.Brings task event ref pool → (regime = .free → session.Undisturbed event) →
        ∀ outcome after, task.operation.alone.proceed ref pool = .ok (.done outcome) after →
          holdDirty task.operation.request.tx [ref] after = .ok () after ∧
            (session.react event).pool = after ∧
            (session.react event).log = .call task.id task.call outcome :: session.log) ∧
      ∀ events ownEvents, session.Abides regime (events.map .event) →
        (regime = .free → session.Calm events) → session.Swaps events ownEvents →
          (session.run events).Own (session.run ownEvents) := by
  refine ⟨?_, fun events ownEvents => (Own.refl session).run h.tidy⟩
  intro task event ref pool htask hchanges hbrings hundisturbed outcome after hrun
  obtain ⟨hheld, hsame⟩ := Continues.held_of_done hchanges
    (h.tidy.atHand htask hchanges hbrings hundisturbed) hrun
  have hgoal : task.operation.goal ≠ .lock := fun hlock => by
    rw [hlock] at hchanges
    exact hchanges
  obtain ⟨now, hreact⟩ := hbrings.react htask hgoal
  rw [hreact, hsame, hrun]
  exact ⟨hheld, rfl, rfl⟩

/-- Two tuples are inserted and the first one is deleted. The cache is full of their pages then, and
none of them may leave. -/
def cramming (insert delete : Tuple → Call) : List Event :=
  [.start 1 (insert (.ofCells [7])), .evaluate 1, .start 2 (insert (.ofCells [8])), .evaluate 2,
    .evaluate 2, .start 3 (delete ⟨[7], some ⟨⟨0, 0⟩, 0⟩⟩), .evaluate 3]

/-- An insertion into the empty table that has appended its first page. -/
def opening : Task where
  id := 0
  call := .insert 2 0 (.ofCells [6])
  operation :=
    { request := { tx := 2, page := ⟨0, 0⟩, mode := .exclusive }
      goal := .insert ⟨.narrow, .ofCells [6], true⟩ ⟨⟨1⟩, 5⟩ .append }
  wait := .issued

theorem hold_adds_nothing_cramming :
    let session := (ofPool .narrow 0).run [.start 0 (.insert 2 0 (.ofCells [6]))]
    let first := ofPool .narrow 0
    let events := cramming (.insert 3 0) (.delete 3)
    let ownEvents := cramming (.insertInto 3 .narrow) (.deleteFrom 3 .narrow)
    (∃ ref pool after, session.task? 0 = some opening ∧
      session.Brings opening (.evaluate 0) ref pool ∧
      (session.react (.evaluate 0)).pool = after ∧ holdDirty 2 [ref] after = .ok () after) ∧
      first.Swaps events ownEvents ∧ (first.run events).Own (first.run ownEvents) ∧
        ((first.run events).outcome? 3).map Outcome.result = some (.ok .unit) ∧
        (first.run events).pool.cache.entries = [(⟨0, 0⟩, 0), (⟨0, 1⟩, 1)] := by
  refine ⟨?_, ?_⟩
  · have hreachable : ((ofPool .narrow 0).run [.start 0 (.insert 2 0 (.ofCells [6]))]).Reachable
        .orderly :=
      Follows.reachable (by decide_cbv) Pool.narrow_ready .orderly
    have hheld := (hold_adds_nothing hreachable).1 opening (.evaluate 0) 0 _ rfl trivial
      (.evaluate rfl rfl rfl (.loaded rfl rfl rfl)) (fun hfree => by cases hfree) _ _ rfl
    exact ⟨_, _, _, rfl, .evaluate rfl rfl rfl (.loaded rfl rfl rfl), hheld.2.1, hheld.1⟩
  have hreachable : (ofPool .narrow 0).Reachable .orderly :=
    ⟨.narrow, 0, [], Pool.narrow_ready.unused .orderly, trivial, rfl⟩
  have hfollows : (ofPool .narrow 0).Follows (cramming (.insert 3 0) (.delete 3)) := by
    decide_cbv
  have hswaps : (ofPool .narrow 0).Swaps (cramming (.insert 3 0) (.delete 3))
      (cramming (.insertInto 3 .narrow) (.deleteFrom 3 .narrow)) := by
    have htable : ∀ pool : Pool, pool.tables = [.narrow] → pool.table? 0 = some .narrow := by
      intro pool htables
      rw [table?, htables]
      rfl
    have hinsert : ∀ tuple, (Call.insert 3 0 tuple).Own (.insertInto 3 .narrow tuple) :=
      fun tuple => @Call.Own.insert 3 .narrow _ tuple rfl
    refine ⟨.start 1 (hinsert _) ?_, .same _, .start 2 (hinsert _) ?_, .same _, .same _,
      .start 3 (.delete rfl rfl rfl) ?_, .same _, trivial⟩
    · rintro _ rfl
      exact htable _ (by decide_cbv)
    · rintro _ rfl
      exact htable _ (by decide_cbv)
    · rintro _ rfl
      exact ⟨_, rfl, htable _ (by decide_cbv)⟩
  exact ⟨hswaps, (hold_adds_nothing hreachable).2 _ _ (hfollows.abides .orderly)
    (fun hfree => by cases hfree) hswaps, by decide_cbv, by decide_cbv⟩

end Session

end PagePool
