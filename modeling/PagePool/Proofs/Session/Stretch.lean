import PagePool.Proofs.Pool.View
import PagePool.Proofs.Session.Step

/-!
# Where a call goes on

All that happens to a call at one event, up to its own code: it waits on, or the event runs one
stretch of it. The stretch is its start, or it is what the call does with a page that has been
locked and has come into the cache, or there is none because the lock was refused or the page could
not be had.
-/

namespace PagePool

open LockRecord Standing Pool

namespace Pool

/-- The pools differ in nothing but what the lock manager keeps besides its table. -/
def Alike (before after : Pool) : Prop :=
  ∃ locks, locks.table = before.locks.table ∧ after = { before with locks }

namespace Alike

variable {before middle after : Pool}

theorem refl (pool : Pool) : pool.Alike pool :=
  ⟨_, rfl, rfl⟩

theorem trans (h : before.Alike middle) (h' : middle.Alike after) : before.Alike after := by
  obtain ⟨_, htable, rfl⟩ := h
  obtain ⟨locks, htable', rfl⟩ := h'
  exact ⟨locks, htable'.trans htable, rfl⟩

theorem standing_eq (h : before.Alike after) (id : PageId) :
    after.standing id = before.standing id := by
  obtain ⟨locks, htable, rfl⟩ := h
  exact congrArg (Standing.mk _ _) (congrArg (LockTable.records · id) htable)

theorem tables_eq (h : before.Alike after) : after.tables = before.tables := by
  obtain ⟨locks, _, rfl⟩ := h
  rfl

theorem evolves {deed : Deed} {tx : TxId} (h : before.Alike after) (hsound : before.Sound) :
    Evolves deed tx before after := by
  obtain ⟨locks, htable, rfl⟩ := h
  exact .locks_of_table hsound locks htable

end Alike

end Pool

namespace Session

/-- Why a call does not get the page that it has asked for. -/
inductive Bars (session : Session) (page : PageId) : Failure → Prop where
  | refused {error : Error} (hkind : error.kind = .deadlock) : session.Bars page (.error error)
  | untimed {failure : Failure}
      (hbudget : Budget.start session.pool.locks.policy session.now = .error failure) :
      session.Bars page failure
  | absent {failure : Failure} (hstored : session.pool.stored? page = none) :
      session.Bars page failure
  | crowded (resident : Nat) : session.Bars page (.error (.noVictim resident))

/-- How the next stretch of a call comes about, and what it comes to. -/
inductive Yields (session : Session) (call : Call) : EStateM.Result Failure Pool Step → Prop where
  | start : Yields session call (call.start session.pool)
  | fail {task : Task} {failure : Failure} {pool : Pool} (hmem : task ∈ session.tasks)
      (hcall : task.call = call) (hevolves : Evolves .access call.tx session.pool pool)
      (hbars : session.Bars task.operation.request.page failure) :
      Yields session call (.error failure pool)
  | lock {task : Task} {pool : Pool} (hmem : task ∈ session.tasks) (hcall : task.call = call)
      (hgoal : task.operation.goal = .lock)
      (hevolves : Evolves .access call.tx session.pool pool) :
      Yields session call (.ok (.answer .unit) pool)
  | proceed {task : Task} {pool : Pool} {ref : PageRef} (hmem : task ∈ session.tasks)
      (hcall : task.call = call) (hevolves : Evolves .access call.tx session.pool pool)
      (houtline : pool.outline = session.pool.outline)
      (hpeek : pool.cache.peek? task.operation.request.page = some ref)
      (hentitled : task.operation.Entitled pool call) :
      Yields session call (task.operation.proceed ref pool)

/-- What an event does to the call that it moves on. -/
inductive Stretch (before : Session) (call : Call) (after : Session) : Prop where
  | waits (hevolves : Evolves .access call.tx before.pool after.pool)
      (htasks : ∀ task ∈ after.tasks, ∃ old ∈ before.tasks,
        old.call = task.call ∧ old.operation = task.operation)
      (hlog : after.log = before.log)
  | asks {operation : Operation} {pool : Pool}
      (hyields : before.Yields call (.ok (.ask operation) pool)) (hpool : pool.Alike after.pool)
      (htasks : ∀ task ∈ after.tasks, (task.call = call ∧ task.operation = operation) ∨
        (task.call.tx ≠ call.tx ∧ ∃ old ∈ before.tasks,
          old.call = task.call ∧ old.operation = task.operation))
      (hlog : after.log = before.log)
  | ends {id : Nat} {outcome : Outcome} {pool : Pool}
      (hyields : before.Yields call (.ok (.done outcome) pool) ∨
        ∃ failure, outcome.result = .error failure ∧ before.Yields call (.error failure pool))
      (hpool : pool.Alike after.pool)
      (htasks : ∀ task ∈ after.tasks, task.call.tx ≠ call.tx ∧ ∃ old ∈ before.tasks,
        old.call = task.call ∧ old.operation = task.operation)
      (hlog : after.log = .call id call outcome :: before.log)

variable {session : Session} {task : Task} {pool : Pool} {now : Nat}

/-- What the next stretch of a call comes to, from what each of the ways to it leads to. -/
theorem Yields.ends {call : Call} {result : EStateM.Result Failure Pool Step}
    {ok : Step → Pool → Prop} {fails : Failure → Pool → Prop} (h : session.Yields call result)
    (hstart : Ends call.start session.pool ok fails)
    (hfail : ∀ task ∈ session.tasks, task.call = call → ∀ {failure pool},
      Evolves .access call.tx session.pool pool →
      session.Bars task.operation.request.page failure → fails failure pool)
    (hlock : ∀ task ∈ session.tasks, task.call = call → task.operation.goal = .lock →
      ∀ {pool}, Evolves .access call.tx session.pool pool → ok (.answer .unit) pool)
    (hproceed : ∀ task ∈ session.tasks, task.call = call → ∀ {pool ref},
      Evolves .access call.tx session.pool pool → pool.outline = session.pool.outline →
      pool.cache.peek? task.operation.request.page = some ref →
      task.operation.Entitled pool call → Ends (task.operation.proceed ref) pool ok fails) :
    (∀ step pool, result = .ok step pool → ok step pool) ∧
      ∀ failure pool, result = .error failure pool → fails failure pool := by
  cases h with
  | start => exact ⟨fun _ _ => hstart.of_ok, fun _ _ => hstart.of_error⟩
  | fail hmem hcall hevolves hbars =>
      refine ⟨fun _ _ hresult => (by cases hresult), fun _ _ hresult => ?_⟩
      cases hresult
      exact hfail _ hmem hcall hevolves hbars
  | lock hmem hcall hgoal hevolves =>
      refine ⟨fun _ _ hresult => ?_, fun _ _ hresult => (by cases hresult)⟩
      cases hresult
      exact hlock _ hmem hcall hgoal hevolves
  | proceed hmem hcall hevolves houtline hpeek hentitled =>
      have hends := hproceed _ hmem hcall hevolves houtline hpeek hentitled
      exact ⟨fun _ _ => hends.of_ok, fun _ _ => hends.of_error⟩

theorem Yields.after {call : Call} {result : EStateM.Result Failure Pool Step}
    {id : Nat} (h : session.Yields call result)
    (halone : ∀ other ∈ session.tasks, other.id ≠ id → other.call.tx ≠ call.tx) (pool : Pool)
    (now : Nat) (tuple : Option Tuple) :
    session.Stretch call ({ session with pool, now }.after id call tuple result) := by
  have hkept : ∀ {task : Task}, task ∈ session.tasks.filter (fun task => task.id ≠ id) →
      task.call.tx ≠ call.tx ∧
        ∃ old ∈ session.tasks, old.call = task.call ∧ old.operation = task.operation := by
    intro task hmem
    obtain ⟨hmem, hid⟩ := List.mem_filter.1 hmem
    exact ⟨halone task hmem (by simpa using hid), task, hmem, rfl, rfl⟩
  unfold Session.after
  split
  · next failure pool =>
    exact .ends (.inr ⟨failure, rfl, h⟩) (.refl pool) (fun _ hmem => hkept hmem) rfl
  · next operation pool =>
    refine .asks h ⟨pool.locks.issue operation.request.tx, rfl, rfl⟩ (fun task hmem => ?_) rfl
    rcases List.mem_append.1 hmem with hold | hnew
    · exact .inr (hkept hold)
    · rw [List.mem_singleton.1 hnew]
      exact .inl ⟨rfl, rfl⟩
  · next outcome pool => exact .ends (.inl h) (.refl pool) (fun _ hmem => hkept hmem) rfl

theorem Yields.resume {result : EStateM.Result Failure Pool Step}
    (h : session.Yields task.call result)
    (halone : ∀ other ∈ session.tasks, other.id ≠ task.id → other.call.tx ≠ task.call.tx)
    (pool : Pool) (now : Nat) :
    session.Stretch task.call ({ session with pool, now }.resume task result) :=
  h.after halone pool now _

/-- Nobody is told more than that he has been woken. -/
theorem tasks_deliver {after : Session} (hmem : task ∈ after.deliver.tasks) :
    ∃ old ∈ after.tasks, old.call = task.call ∧ old.operation = task.operation := by
  obtain ⟨old, hold, rfl⟩ := List.mem_map.1 hmem
  refine ⟨old, hold, ?_⟩
  unfold notifyTask
  split <;> exact ⟨rfl, rfl⟩

theorem Stretch.deliver {call : Call} {after : Session} (h : session.Stretch call after) :
    session.Stretch call after.deliver := by
  have hdelivered : after.pool.Alike after.deliver.pool :=
    ⟨{ after.pool.locks with notified := [] }, rfl, rfl⟩
  cases h with
  | waits hevolves htasks hlog =>
      refine .waits (hevolves.trans (hdelivered.evolves hevolves.sound)) (fun task hmem => ?_) hlog
      obtain ⟨old, hold, hcall, hoperation⟩ := tasks_deliver hmem
      rw [← hcall, ← hoperation]
      exact htasks old hold
  | asks hyields hpool htasks hlog =>
      refine .asks hyields (hpool.trans hdelivered) (fun task hmem => ?_) hlog
      obtain ⟨old, hold, hcall, hoperation⟩ := tasks_deliver hmem
      rw [← hcall, ← hoperation]
      exact htasks old hold
  | ends hyields hpool htasks hlog =>
      refine .ends hyields (hpool.trans hdelivered) (fun task hmem => ?_) hlog
      obtain ⟨old, hold, hcall, hoperation⟩ := tasks_deliver hmem
      rw [← hcall, ← hoperation]
      exact htasks old hold

section Tasks

variable (hmem : task ∈ session.tasks)
  (halone : ∀ other ∈ session.tasks, other.id ≠ task.id → other.call.tx ≠ task.call.tx)
  (hevolves : Evolves .access task.call.tx session.pool pool)
include hmem hevolves

theorem stretch_setWait (wait : Wait) :
    session.Stretch task.call ({ session with pool, now }.setWait task wait) := by
  refine .waits hevolves (fun other hother => ?_) rfl
  obtain ⟨old, hold, rfl⟩ := List.mem_map.1 hother
  split
  · exact ⟨task, hmem, rfl, rfl⟩
  · exact ⟨old, hold, rfl, rfl⟩

variable (hpool : pool.Coherent) (houtline : pool.outline = session.pool.outline)
include halone hpool houtline

theorem stretch_arrive (hentitled : task.operation.Entitled pool task.call) {data : Bytes}
    (hstored : pool.cache.peek? task.operation.request.page = none →
      pool.stored? task.operation.request.page = some data) :
    session.Stretch task.call ({ session with pool, now }.arrive task
      (Page.load task.operation.request.page data)) := by
  have hinstall := (ends_install hpool task.call.tx hstored).and
    (ends_install_view hpool task.call.tx hstored)
  unfold Ends at hinstall
  simp only [arrive, resume, bind, EStateM.bind]
  split at hinstall
  · next ref installed hrun =>
    obtain ⟨⟨hinstalled, hlocks, hpeek⟩, _, _, hview, _⟩ := hinstall
    rw [hrun]
    have hentitled' := hentitled.of_locks_eq hinstalled hpool hlocks
    have houtline' : installed.outline = session.pool.outline :=
      (congrArg View.outline hview).trans houtline
    have hproceeds := Yields.proceed hmem rfl (hevolves.trans hinstalled) houtline' hpeek hentitled'
    exact hproceeds.resume halone pool now
  · next failure installed hrun =>
    obtain ⟨hinstalled, _, resident, rfl⟩ := hinstall
    rw [hrun]
    have hfails := Yields.fail hmem rfl (hevolves.trans hinstalled) (.crowded resident)
    exact hfails.resume halone pool now

theorem stretch_granted (hentitled : task.operation.Entitled pool task.call) :
    session.Stretch task.call ({ session with pool, now }.granted task) := by
  have hfetch := (ends_fetch hpool task.call.tx task.operation.request.page).and
    (ends_fetch_still hpool task.operation.request.page)
  unfold Ends at hfetch
  unfold granted
  split
  · next hgoal => exact (Yields.lock hmem rfl hgoal hevolves).resume halone pool now
  dsimp only
  split at hfetch
  · next fetched looked hrun =>
    obtain ⟨⟨hlooked, hlocks, hprovides⟩, hstill⟩ := hfetch
    have hentitled' := hentitled.of_locks_eq hlooked hpool hlocks
    have hevolves' := hevolves.trans hlooked
    have houtline' : looked.outline = session.pool.outline :=
      (funext hstill.outline_eq).trans houtline
    rw [hrun]
    cases fetched with
    | resident ref =>
        have hproceeds := Yields.proceed hmem rfl hevolves' houtline' hprovides hentitled'
        exact hproceeds.resume halone looked now
    | loaded page =>
        obtain ⟨habsent, data, hstored, rfl⟩ := hprovides
        dsimp only
        split
        · exact stretch_setWait hmem hevolves' _
        · have hcoherent := hlooked.coherent hpool
          exact stretch_arrive hmem halone hevolves' hcoherent houtline' hentitled' fun _ => hstored
  · next failure looked hrun =>
    obtain ⟨hlooked, _, hmissing, _⟩ := hfetch
    rw [hrun]
    have habsent : session.pool.stored? task.operation.request.page = none := by
      by_contra hstored
      have hstored' := (hevolves.moves _).isSome_stored (Option.isSome_iff_ne_none.2 hstored)
      exact Option.isSome_iff_ne_none.1 hstored' hmissing
    exact (Yields.fail hmem rfl (hevolves.trans hlooked) (.absent habsent)).resume halone pool now

theorem stretch_attempt (hwaits : task.operation.Waits pool task.call) (budget : Budget) :
    session.Stretch task.call ({ session with pool, now }.attempt task budget) := by
  have hcases := pool.locks.attempt_cases task.operation.request budget now
  unfold attempt
  dsimp only
  split
  · next locks hattempt =>
    rw [hattempt] at hcases
    obtain ⟨_, hfree, htable⟩ := hcases.resolve_right fun hrefused => hrefused.1 rfl
    have hgranted : Evolves .access task.call.tx pool { pool with locks } :=
      hwaits.tx_eq ▸ evolves_grant hpool hfree htable
    exact stretch_granted hmem halone (hevolves.trans hgranted) (hgranted.coherent hpool) houtline
      (hwaits.granted hpool hfree htable)
  · next locks hattempt =>
    rw [hattempt] at hcases
    obtain ⟨_, htable⟩ := hcases.resolve_left fun hgranted => by cases hgranted.1
    exact stretch_setWait hmem (hevolves.trans (.locks_of_table hpool.toSound locks htable)) _
  · next error locks hattempt =>
    rw [hattempt] at hcases
    obtain ⟨_, htable⟩ := hcases.resolve_left fun hgranted => by cases hgranted.1
    have hrefused := hevolves.trans (.locks_of_table hpool.toSound locks htable)
    have hkind := LockManager.kind_of_refused (congrArg Prod.fst hattempt)
    exact (Yields.fail hmem rfl hrefused (.refused hkind)).resume halone pool now

end Tasks

theorem Sound.stretch_task (h : session.Sound) {event : Event} {id : Nat}
    (htask : session.task? id = some task) (hevent : event = .evaluate id ∨
      (∃ timedOut elapsed, event = .wake id timedOut elapsed) ∨ event = .load id) :
    session.Stretch task.call (session.react event) := by
  obtain ⟨hmem, rfl⟩ := task?_mem htask
  have hsame : Evolves .access task.call.tx session.pool session.pool := .refl h.coherent.toSound
  have hidle : session.Stretch task.call session :=
    .waits hsame (fun task hmem => ⟨task, hmem, rfl, rfl⟩) rfl
  have halone : ∀ other ∈ session.tasks, other.id ≠ task.id → other.call.tx ≠ task.call.tx :=
    fun other hother hid htx => hid (h.one_each other hother task hmem htx)
  have hsound := h.tasks_sound task hmem
  unfold Task.Sound at hsound
  rcases hevent with rfl | ⟨timedOut, elapsed, rfl⟩ | rfl
  · simp only [react, htask]
    split
    · next hwait =>
      simp only [hwait] at hsound
      have hentered : Evolves .access task.call.tx session.pool
          { session.pool with locks := session.pool.locks.enter task.operation.request.tx } :=
        .locks_of_table h.coherent.toSound _ rfl
      unfold Session.evaluate
      dsimp only
      split
      · exact stretch_attempt hmem halone hentered (hentered.coherent h.coherent) rfl
          ⟨hsound.toSound.evolves hentered h.coherent, hsound.fresh⟩ _
      · next failure hbudget =>
        exact (Yields.fail hmem rfl hentered (.untimed hbudget)).resume halone _ session.now
    · exact hidle
  · simp only [react, htask]
    split
    · next budget _ hwait =>
      simp only [hwait] at hsound
      exact stretch_attempt hmem halone hsame h.coherent rfl hsound _
    · exact hidle
  · simp only [react, htask]
    split
    · next page hwait =>
      simp only [hwait] at hsound
      obtain ⟨hentitled, ⟨data, rfl, hreading⟩, _⟩ := hsound
      exact stretch_arrive hmem halone hsame h.coherent rfl hentitled fun _ => hreading.stored_eq
    · exact hidle

/-- One case for each event that moves a call on. -/
theorem Sound.stretch (h : session.Sound) {event : Event} {call : Call}
    (hpermits : session.Permits event) (hcall : session.call? event = some call) :
    session.Stretch call (session.step event) := by
  apply Stretch.deliver
  have htask : ∀ {id}, (session.task? id).map Task.call = some call → (event = .evaluate id ∨
      (∃ timedOut elapsed, event = .wake id timedOut elapsed) ∨ event = .load id) →
      session.Stretch call (session.react event) := by
    intro id hcall' hevent
    obtain ⟨task, htask, rfl⟩ := Option.map_eq_some_iff.1 hcall'
    exact h.stretch_task htask hevent
  cases event with
  | start id started =>
      obtain rfl := Option.some.inj hcall
      cases hnew : session.task? id with
      | none =>
          simp only [react, Session.start, hnew]
          exact Yields.start.after (fun other hother _ => hpermits.1 other hother) session.pool
            session.now _
      | some task =>
          simp only [react, Session.start, hnew]
          exact .waits (.refl h.coherent.toSound) (fun task hmem => ⟨task, hmem, rfl, rfl⟩) rfl
  | evaluate id => exact htask hcall (.inl rfl)
  | wake id timedOut elapsed => exact htask hcall (.inr (.inl ⟨timedOut, elapsed, rfl⟩))
  | load id => exact htask hcall (.inr (.inr rfl))
  | command command => cases hcall

/-- What the event does to the pages. -/
theorem Sound.evolves (h : session.Sound) {event : Event} {call : Call}
    (hroom : session.HasRoom event) (hpermits : session.Permits event)
    (hcall : session.call? event = some call) :
    Evolves call.deed call.tx session.pool (session.step event).pool :=
  have hadvances := h.advances hroom hpermits hcall
  hadvances.evolves.trans (evolves_deliver hadvances.sound)

/-- The call that an event moves on has just started, or is under way. -/
theorem started_or_task {event : Event} {call : Call} (hcall : session.call? event = some call) :
    (∃ id, event = .start id call) ∨ ∃ task ∈ session.tasks, task.call = call := by
  have htask : ∀ {id}, (session.task? id).map Task.call = some call →
      ∃ task ∈ session.tasks, task.call = call := by
    intro id hcall
    obtain ⟨task, htask, rfl⟩ := Option.map_eq_some_iff.1 hcall
    exact ⟨task, (task?_mem htask).1, rfl⟩
  cases event with
  | start id started =>
      obtain rfl := Option.some.inj hcall
      exact .inl ⟨id, rfl⟩
  | command command => cases hcall
  | evaluate id | wake id | load id => exact .inr (htask hcall)

/-- All other events leave the calls where they are. -/
theorem step_of_call_eq_none {event : Event} (hcall : session.call? event = none) :
    (∀ task ∈ (session.step event).tasks, ∃ old ∈ session.tasks,
      old.call = task.call ∧ old.operation = task.operation) ∧
    ((session.step event).log = session.log ∨ ∃ command result, event = .command command ∧
      (session.step event).log = .command command result :: session.log) := by
  have hreact : (session.react event).tasks = session.tasks ∧
      ((session.react event).log = session.log ∨ ∃ command result, event = .command command ∧
        (session.react event).log = .command command result :: session.log) := by
    by_cases hcommand : ∃ command, event = .command command
    · obtain ⟨command, rfl⟩ := hcommand
      obtain ⟨result, hlog⟩ := session.log_execute command
      exact ⟨session.tasks_execute command, .inr ⟨command, result, rfl, hlog⟩⟩
    · rw [react_of_call_eq_none hcall fun command heq => hcommand ⟨command, heq⟩]
      exact ⟨rfl, .inl rfl⟩
  exact ⟨fun task hmem => hreact.1 ▸ tasks_deliver hmem, hreact.2⟩

end Session

end PagePool
