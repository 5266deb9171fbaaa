import PagePool.Proofs.Session.Invariant

/-!
# What one event does

All that a permitted event does to the pool: the pages make moves of the transaction that acts, or
moves of nobody's, or a page is given back, or a transaction ends. All reachable sessions satisfy
the invariant.
-/

namespace PagePool

open LockRecord Standing Pool

namespace Session

/-- The effect of an event on the pool. -/
inductive Effect (before : Session) (event : Event) (after : Session) : Prop where
  | finish {ending : Ending} {tx : TxId} (hevent : event = .command (.finish ending tx))
      (hlog : after.log = .command (.finish ending tx) (.ok .unit) :: before.log)
      (h : before.pool.Finishes ending tx after.pool)
  | release {tx : TxId} {page : PageId} (hevent : event = .command (.release tx page))
      (h : before.pool.Releases tx page after.pool)
  | act {deed : Deed} {tx : TxId} (hevent : ∀ ending tx, event ≠ .command (.finish ending tx))
      (hactor : before.actor? event = some tx) (hkept : deed ≠ .flush)
      (h : Evolves deed tx before.pool after.pool)
  | serve (hactor : before.actor? event = none)
      (h : ∀ tx, Evolves .flush tx before.pool after.pool)

variable {session : Session} {pool : Pool} {tx : TxId} {page : PageId}

/-- No event adds a table or takes one away. -/
theorem Effect.tables_eq {event : Event} {after : Session} (h : session.Effect event after) :
    after.pool.tables = session.pool.tables := by
  cases h with
  | finish _ _ h => exact h.tables_eq
  | release _ h => exact h.tables_eq
  | act _ _ _ h => exact h.tables_eq
  | serve _ h => exact (h 0).tables_eq

theorem Effect.pageSize_eq {event : Event} {after : Session} (h : session.Effect event after) :
    after.pool.pageSize = session.pool.pageSize := by
  cases h with
  | finish _ _ h => exact h.pageSize_eq
  | release _ h => exact h.pageSize_eq
  | act _ _ _ h => exact h.pageSize_eq
  | serve _ h => exact (h 0).pageSize_eq

theorem execute_ok {command : Command} {answer : Answer}
    (h : session.action command session.pool = .ok answer pool) :
    session.execute command =
      { session with pool, log := .command command (.ok answer) :: session.log } := by
  simp only [execute, h]

theorem tasks_execute (session : Session) (command : Command) :
    (session.execute command).tasks = session.tasks := by
  unfold Session.execute
  split <;> rfl

theorem log_execute (session : Session) (command : Command) :
    ∃ result, (session.execute command).log = .command command result :: session.log := by
  unfold Session.execute
  split
  · exact ⟨_, rfl⟩
  · exact ⟨_, rfl⟩

theorem action_read (session : Session) (handle : Nat) :
    session.action (.read handle) session.pool =
      .ok (match session.handle? handle with
        | some entry => .bytes (session.pool.page entry.ref).data
        | none => .unit) session.pool := by
  simp only [action, onHandle]
  cases session.handle? handle with
  | none => rfl
  | some entry => exact congrArg (EStateM.Result.ok _) (setPage_page session.pool entry.ref)

/-- A write through a handle changes the page object, and nothing else. -/
theorem execute_write (session : Session) {handle : Nat} {entry : Handle}
    (hhandle : session.handle? handle = some entry) (tx : TxId) (offset : Nat) (chunk : Bytes) :
    ∃ result, session.execute (.write handle tx offset chunk) =
      { session with
        pool := session.pool.setPage entry.ref
          ((session.pool.page entry.ref).overwritten tx offset chunk)
        log := .command (.write handle tx offset chunk) result :: session.log } := by
  have haction : session.action (.write handle tx offset chunk) =
      onPage entry.ref (do Page.write tx offset chunk; return .unit) := by
    simp only [action, onHandle, hhandle]
  have hstep : Ends (do Page.write tx offset chunk; return Answer.unit)
      (session.pool.page entry.ref)
      (fun _ after => after = (session.pool.page entry.ref).overwritten tx offset chunk)
      fun _ after => after = (session.pool.page entry.ref).overwritten tx offset chunk :=
    (Page.ends_write ..).bind (fun _ _ hafter => hafter) fun _ _ hafter => hafter
  unfold Session.execute
  rw [haction]
  unfold onPage
  unfold Ends at hstep
  split at hstep
  · next answer after hrun =>
    rw [hrun, hstep]
    exact ⟨.ok answer, rfl⟩
  · next failure after hrun =>
    rw [hrun, hstep]
    exact ⟨.error failure, rfl⟩

theorem releases_release (hpool : pool.Coherent) (hclean : pool.Unmodified tx page) :
    pool.Releases tx page { pool with locks := (pool.locks.release tx page).2 } := by
  have htable : (pool.locks.release tx page).2.table = pool.locks.table.release tx page := by
    unfold LockManager.release
    split <;> rfl
  have hstanding : ∀ id, Pool.standing { pool with locks := (pool.locks.release tx page).2 } id =
      if id = page then (pool.standing id).unlock tx else pool.standing id := by
    intro id
    change Standing.mk _ _ ((pool.locks.release tx page).2.table.records id) = _
    rw [htable, LockTable.records_release]
    split <;> rfl
  have hsound := hpool.toSound
  refine ⟨⟨⟨hsound.nodup, hsound.inside, hsound.named, hsound.backed, hsound.reliable,
    hsound.apart⟩, fun id => ?_⟩, rfl, rfl, rfl, hstanding⟩
  rw [hstanding]
  split
  · next hpage =>
    subst hpage
    refine (hpool.coherent id).unlock fun ref object hcached howner => ?_
    obtain ⟨hpeek, rfl⟩ := standing_cached_iff.1 hcached
    exact hclean (LockTable.mode?_eq_exclusive_iff.2 howner) ref hpeek
  · exact hpool.coherent id

theorem Effect.deliver {event : Event} {after : Session} (h : session.Effect event after)
    (hafter : after.Sound) : session.Effect event after.deliver := by
  have hcoherent := hafter.deliver.coherent
  cases h with
  | finish hevent hlog hfinishes =>
      have hf := hfinishes
      exact .finish hevent hlog ⟨hcoherent, hf.pageSize_eq, hf.tables_eq,
        hf.next_eq, hf.held_eq, hf.others_eq, hf.page_eq, hf.targets_eq, hf.not_mem_targets⟩
  | release hevent hreleases =>
      have hr := hreleases
      exact .release hevent ⟨hcoherent, hr.pageSize_eq, hr.tables_eq,
        hr.frames_eq, hr.standing_eq⟩
  | act hevent hactor hkept hevolves =>
      exact .act hevent hactor hkept (hevolves.trans (evolves_deliver hafter))
  | serve hactor hevolves =>
      exact .serve hactor fun tx => (hevolves tx).trans (evolves_deliver hafter)

/-- A flush is the same whosever it is taken to be. -/
theorem Sound.execute_flush (h : session.Sound) {step : Action Unit} {command : Command}
    (haction : session.action command = do step; return .unit)
    (hactor : session.actor? (.command command) = none)
    (hloans : ∀ log, Entry.loans (.command command (.ok .unit) :: log) = Entry.loans log)
    {which : PageId → Prop}
    (hends : Ends step session.pool (fun _ after => session.pool.Flushes which after)
      fun _ _ => False) :
    (session.execute command).Sound ∧
      session.Effect (.command command) (session.execute command) := by
  obtain ⟨_, after, hrun, hflushes⟩ := hends.succeeds
  have hresult : session.action command session.pool = .ok .unit after := by
    rw [haction]
    simp only [bind, EStateM.bind, hrun]
    rfl
  rw [execute_ok hresult]
  exact ⟨h.serve rfl (hloans session.log) hflushes.evolves, .serve hactor hflushes.evolves⟩

theorem Sound.execute (h : session.Sound) {command : Command} (hallows : session.Allows command) :
    (session.execute command).Sound ∧
      session.Effect (.command command) (session.execute command) := by
  cases command with
  | read handle =>
      rw [execute_ok (session.action_read handle)]
      have hsame : ∀ tx, Evolves .flush tx session.pool session.pool := fun _ =>
        .refl h.coherent.toSound
      exact ⟨h.serve rfl rfl hsame, .serve rfl hsame⟩
  | write handle tx offset chunk =>
      obtain ⟨entry, hentry, loan, hmem, rfl, hmode, href⟩ := hallows
      obtain ⟨result, hresult⟩ := session.execute_write hentry loan.tx offset chunk
      rw [← href] at hresult
      have hpage := (session.pool.page loan.ref).rewritten_overwritten loan.tx offset chunk
      have hwritten := h.written hmem hmode (by rw [hresult]) (by rw [hresult]; rfl)
        (congrArg Session.pool hresult) hpage
      exact ⟨hwritten.1, .act (by simp) rfl (by simp) hwritten.2⟩
  | mark => cases hallows
  | flushPage page =>
      exact h.execute_flush rfl rfl (fun _ => rfl) (ends_flushPage_flushes h.coherent page)
  | flushTransaction flushed =>
      exact h.execute_flush rfl rfl (fun _ => rfl)
        (ends_flushTransaction_flushes h.coherent flushed)
  | flushAll =>
      exact h.execute_flush rfl rfl (fun _ => rfl) (ends_flushAll_flushes h.coherent)
  | discardPage => cases hallows
  | release tx page =>
      have hreleases := releases_release h.coherent hallows.2
      exact ⟨h.released hallows.1 rfl rfl hreleases, .release rfl hreleases⟩
  | completeLocks => cases hallows
  | finish ending tx =>
      obtain ⟨_, after, hrun, hdeparts⟩ := (ends_finish_departs h.coherent ending tx).succeeds
      have hresult : session.action (.finish ending tx) session.pool = .ok .unit after := by
        simp only [action, bind, EStateM.bind, hrun]
        rfl
      rw [execute_ok hresult]
      exact ⟨h.finished hallows rfl rfl hdeparts.finishes, .finish rfl rfl hdeparts.finishes⟩

/-- Every event but a command lets its call go on. -/
theorem Sound.advances (h : session.Sound) {event : Event} {call : Call}
    (hroom : session.HasRoom event) (hpermits : session.Permits event)
    (hcall : session.call? event = some call) : session.Advances call (session.react event) := by
  have htask : ∀ id, (event = .evaluate id ∨
      (∃ timedOut elapsed, event = .wake id timedOut elapsed) ∨ event = .load id) →
      session.Advances call (session.react event) := by
    intro id hevent
    have hcall' : (session.task? id).map Task.call = some call := by
      rcases hevent with rfl | ⟨_, _, rfl⟩ | rfl <;> exact hcall
    obtain ⟨task, htask, rfl⟩ := Option.map_eq_some_iff.1 hcall'
    exact h.resume (hroom task.call hcall) htask hevent
  cases event with
  | start id started =>
      obtain rfl := Option.some.inj hcall
      cases hnew : session.task? id with
      | none => exact h.start (hroom started hcall) hpermits.1 hpermits.2 hnew
      | some task =>
          have hsame : session.react (.start id started) = session := by
            simp only [react, Session.start, hnew]
          rw [hsame]
          exact h.refl started
  | evaluate id => exact htask id (.inl rfl)
  | wake id timedOut elapsed => exact htask id (.inr (.inl ⟨timedOut, elapsed, rfl⟩))
  | load id => exact htask id (.inr (.inr rfl))
  | command command => cases hcall

theorem react_of_call_eq_none {event : Event} (hcall : session.call? event = none)
    (hcommand : ∀ command, event ≠ .command command) : session.react event = session := by
  cases event with
  | start => cases hcall
  | command command => exact absurd rfl (hcommand command)
  | _ => simp only [react, Option.map_eq_none_iff.1 hcall]

/-- Every permitted event keeps the invariant and has one of the four effects. -/
theorem Sound.step (h : session.Sound) {event : Event} (hroom : session.HasRoom event)
    (hpermits : session.Permits event) :
    (session.step event).Sound ∧ session.Effect event (session.step event) := by
  have hreact : (session.react event).Sound ∧ session.Effect event (session.react event) := by
    by_cases hcommand : ∃ command, event = .command command
    · obtain ⟨command, rfl⟩ := hcommand
      exact h.execute hpermits
    · have hevent : ∀ command, event ≠ .command command :=
        fun command heq => hcommand ⟨command, heq⟩
      have hactor : session.actor? event = (session.call? event).map Call.tx := by
        cases event with
        | command command => exact absurd rfl (hevent command)
        | _ => rfl
      cases hcall : session.call? event with
      | some call =>
          have hadvances := h.advances hroom hpermits hcall
          refine ⟨hadvances.sound, .act (fun _ _ => hevent _) ?_ call.deed_ne_flush
            hadvances.evolves⟩
          rw [hactor, hcall]
          rfl
      | none =>
          rw [react_of_call_eq_none hcall hevent]
          refine ⟨h, .serve ?_ fun _ => .refl h.coherent.toSound⟩
          rw [hactor, hcall]
          rfl
  exact ⟨hreact.1.deliver, hreact.2.deliver hreact.1⟩

/-- A transaction can be ended at any time when it is at rest. -/
theorem Sound.finishes (h : session.Sound) {ending : Ending}
    (hroom : session.HasRoom (.command (.finish ending tx)))
    (hpermits : session.Permits (.command (.finish ending tx))) :
    (session.step (.command (.finish ending tx))).log =
        .command (.finish ending tx) (.ok .unit) :: session.log ∧
      session.pool.Finishes ending tx (session.step (.command (.finish ending tx))).pool := by
  obtain ⟨_, heffect⟩ := h.step hroom hpermits
  cases heffect with
  | finish hevent hlog hfinishes =>
      cases hevent
      exact ⟨hlog, hfinishes⟩
  | release hevent => cases hevent
  | act hevent => exact absurd rfl (hevent ending tx)
  | serve hactor => cases hactor

theorem Sound.releases (h : session.Sound)
    (hpermits : session.Permits (.command (.release tx page))) :
    session.pool.Releases tx page (session.step (.command (.release tx page))).pool := by
  have hallows : session.Allows (.release tx page) := hpermits
  have hreleases := releases_release h.coherent hallows.2
  have hafter := (h.execute hallows).1.deliver.coherent
  exact ⟨hafter, hreleases.pageSize_eq, hreleases.tables_eq, hreleases.frames_eq,
    hreleases.standing_eq⟩

/-- What nobody does is no more than to move pages. -/
theorem Sound.serves (h : session.Sound) {event : Event} (hroom : session.HasRoom event)
    (hpermits : session.Permits event) (hactor : session.actor? event = none) (tx : TxId) :
    Evolves .flush tx session.pool (session.step event).pool := by
  cases (h.step hroom hpermits).2 with
  | finish hevent =>
      subst hevent
      cases hactor
  | release hevent =>
      subst hevent
      cases hactor
  | act _ hactor' =>
      rw [hactor] at hactor'
      cases hactor'
  | serve _ hserves => exact hserves tx

/-- A page that a call gives is in the cache. -/
theorem Sound.lends (h : session.Sound) {event : Event} (hroom : session.HasRoom event)
    (hpermits : session.Permits event) {id : Nat} {mode : LockMode} {ref : PageRef}
    {tuple : Option Tuple}
    (hlog : (session.step event).log =
      .call id (.get tx page mode) ⟨.ok (.page ref), tuple⟩ :: session.log) :
    session.call? event = some (.get tx page mode) ∧
      (session.step event).pool.cache.peek? page = some ref := by
  change (session.react event).log = _ at hlog
  cases hcall : session.call? event with
  | none =>
      exfalso
      by_cases hcommand : ∃ command, event = .command command
      · obtain ⟨command, rfl⟩ := hcommand
        obtain ⟨result, hresult⟩ := session.log_execute command
        cases hresult.symm.trans hlog
      · rw [react_of_call_eq_none hcall fun command heq => hcommand ⟨command, heq⟩] at hlog
        exact List.cons_ne_self _ _ hlog.symm
  | some call =>
      rcases (h.advances hroom hpermits hcall).log with hsame | ⟨id', outcome, hnew, hlends⟩
      · exact absurd (hsame.symm.trans hlog).symm (List.cons_ne_self _ _)
      · cases hnew.symm.trans hlog
        obtain ⟨page', mode', heq, hpeek, _⟩ := hlends ref rfl
        cases heq
        exact ⟨rfl, hpeek⟩

theorem Sound.ofPool (h : pool.Ready) (now : Nat) : (Session.ofPool pool now).Sound := by
  have habsent : ∀ id, pool.cache.peek? id = none := fun id => by simp [Cache.peek?, h.empty]
  have hmem : ∀ {id table}, pool.table? id = some table → table ∈ pool.tables := fun htable =>
    List.mem_of_find?_eq_some htable
  refine ⟨⟨⟨?_, ?_, ?_, fun htable => h.backed _ (hmem htable),
    fun htable => h.reliable _ (hmem htable), ?_⟩, ?_⟩, h.strict, ?_, ?_, ?_⟩
  · simp [Session.ofPool, Cache.pages, h.empty]
  · intro id ref hpeek
    rw [Session.ofPool, habsent] at hpeek
    cases hpeek
  · intro id ref hpeek
    rw [Session.ofPool, habsent] at hpeek
    cases hpeek
  · intro id other table neighbour htable hneighbour hsame
    have htables : table = neighbour :=
      List.inj_on_of_nodup_map h.apart (hmem htable) (hmem hneighbour) hsame
    rw [← table?_id htable, ← table?_id hneighbour, htables]
  · intro id
    refine ⟨?_, fun ref page hcached => ?_⟩
    · have hrecords : (pool.standing id).records = [] := h.unlocked id
      exact hrecords ▸ compatible_nil
    · have hnone := standing_cached_none (habsent id)
      rw [Session.ofPool, hnone] at hcached
      cases hcached
  all_goals simp [Session.ofPool, loans, Entry.loans]

/-- All sessions that a disciplined run reaches satisfy the invariant. -/
theorem Follows.sound {events : List Event} {now : Nat} (hready : pool.Ready)
    (h : (Session.ofPool pool now).Follows events) : ((Session.ofPool pool now).run events).Sound :=
  h.induction (motive := Session.Sound) (.ofPool hready now) fun hsound hroom hpermits =>
    (hsound.step hroom hpermits).1

theorem Follows.tables_eq {events : List Event} (h : session.Follows events)
    (hsession : session.Sound) : (session.run events).pool.tables = session.pool.tables := by
  have hboth := h.induction
    (motive := fun later => later.Sound ∧ later.pool.tables = session.pool.tables)
    ⟨hsession, rfl⟩ fun ⟨hsound, htables⟩ hroom hpermits =>
      have hstep := hsound.step hroom hpermits
      ⟨hstep.1, hstep.2.tables_eq.trans htables⟩
  exact hboth.2

end Session

end PagePool
