import PagePool.Proofs.Pool.Custody
import PagePool.Proofs.Pool.Parting
import PagePool.Proofs.Session.Step

/-!
# Runs that keep to some rules

A run goes in turns: an event happens, a table is registered, somebody takes or leaves the latch of
a page object, or storage changes from outside. It keeps to no rules, to those of order, or to all
of them. What is left to writers by then holds in every session that it reaches.
-/

namespace PagePool

open LockRecord Pool

/-- A turn of a run. -/
inductive Turn where
  | event (event : Event)
  | register (table : Table)
  | guard (ref : PageRef) (latch : Latch)
  | storage (volumes : List Volume)

/-- A pool that nobody has used yet. -/
structure Pool.Unused (regime : Regime) (pool : Pool) : Prop where
  empty : pool.cache.entries = []
  unlocked : ∀ page, pool.locks.table.records page = []
  serves : regime = .strict → ∀ table ∈ pool.tables, pool.Serves table

/-- What is known of a call under way. -/
structure Task.Suits (task : Task) (regime : Regime) (pool : Pool) (loans : List Loan) : Prop where
  suits : task.operation.Suits regime pool task.call
  fresh : task.operation.Fresh regime pool task.call
  blocked : ∀ {budget woken}, task.wait = .blocked budget woken → regime ≠ .free →
    ¬OwnedBy (pool.locks.table.records task.operation.request.page) task.call.tx
  reads : ∀ {page}, task.wait = .reading page →
    pool.Reads regime task.operation.request.page page
  owned : ∀ {page}, task.wait = .reading page → regime ≠ .free →
    task.operation.request.mode = .exclusive →
      OwnedBy (pool.locks.table.records task.operation.request.page) task.call.tx
  unlent : ∀ {page}, task.wait = .reading page → regime ≠ .free → ∀ loan ∈ loans,
    loan.tx = task.call.tx → loan.mode = .exclusive → loan.page ≠ task.operation.request.page

namespace Session

/-- Transactions are one thread of control each, the pool alone marks pages and drops them, and
locks go with their transaction, or one by one when it is at rest. -/
def Orders (session : Session) : Event → Prop
  | .start _ call => session.Idle call.tx
  | .evaluate _ | .wake .. | .load _ => True
  | .command command =>
      match command with
      | .read _ | .write .. | .flushPage _ | .flushTransaction _ | .flushAll => True
      | .release tx _ | .finish _ tx => session.Idle tx
      | .completeLocks tx => session.Idle tx ∧
          ∀ loan ∈ session.loans, loan.tx = tx → loan.mode ≠ .exclusive
      | .mark .. | .discardPage _ => False

theorem Permits.orders {session : Session} {event : Event} (h : session.Permits event) :
    session.Orders event := by
  cases event with
  | start id call => exact h.1
  | command command =>
      cases command with
      | mark | discardPage | completeLocks => exact h.elim
      | release tx page => exact h.1
      | finish ending tx => exact h
      | _ => trivial
  | _ => trivial

def Obeys (session : Session) (regime : Regime) (event : Event) : Prop :=
  match regime with
  | .free => True
  | .orderly => session.Orders event
  | .strict => session.Permits event

def turn (session : Session) : Turn → Session
  | .event event => session.step event
  | .register table => (session.perform (addTable table)).2
  | .guard ref latch => { session with pool := session.pool.setLatch ref latch }
  | .storage volumes => { session with pool := { session.pool with volumes } }

def takes (session : Session) (turns : List Turn) : Session :=
  turns.foldl turn session

def Minds (session : Session) (regime : Regime) : Turn → Prop
  | .event event => session.Obeys regime event
  | .register table => regime = .strict → session.pool.Serves table
  | .guard .. => True
  | .storage volumes => regime = .strict → session.pool.volumes.length ≤ volumes.length ∧
      ∀ ref, (session.pool.volume ref).Lasts session.pool.pageSize (volumes.getD ref default)

/-- Every turn of a run minds the rules when it comes. -/
def Abides (session : Session) (regime : Regime) : List Turn → Prop
  | [] => True
  | turn :: rest => session.Minds regime turn ∧ (session.turn turn).Abides regime rest

structure Tidy (regime : Regime) (session : Session) : Prop where
  tidy : session.pool.Tidy regime
  one_each : regime ≠ .free → ∀ task ∈ session.tasks, ∀ other ∈ session.tasks,
    task.call.tx = other.call.tx → task.id = other.id
  suits : ∀ task ∈ session.tasks, task.Suits regime session.pool session.loans
  lent : regime ≠ .free → ∀ loan ∈ session.loans, loan.Sound session.pool

/-- What holds while one call goes on: all is well but for the task of the call. -/
structure Hosts (regime : Regime) (session : Session) (id : Nat) (tx : TxId) : Prop where
  tidy : session.pool.Tidy regime
  others : ∀ task ∈ session.tasks, task.id ≠ id →
    (regime ≠ .free → task.call.tx ≠ tx) ∧ task.Suits regime session.pool session.loans
  one_each : regime ≠ .free → ∀ task ∈ session.tasks, ∀ other ∈ session.tasks, task.id ≠ id →
    other.id ≠ id → task.call.tx = other.call.tx → task.id = other.id
  lent : regime ≠ .free → ∀ loan ∈ session.loans, loan.Sound session.pool

end Session

section Spared

variable {regime : Regime} {drops : PageId → Prop} {before after : Pool} {actor : TxId}
  {task : Task} {loan : Loan}

theorem Task.Suits.spared {loans loans' : List Loan} (h : task.Suits regime before loans)
    (hdrifts : Drifts regime actor drops before after)
    (hother : regime ≠ .free → task.call.tx ≠ actor)
    (hloans : regime ≠ .free → ∀ loan ∈ loans', loan.tx = task.call.tx → loan ∈ loans) :
    task.Suits regime after loans' where
  suits := h.suits.spared hdrifts hother
  fresh := h.fresh.spared hdrifts hother
  blocked hwait hkeeps howner := h.blocked hwait hkeeps (hdrifts.unowned (hother hkeeps) howner)
  reads hwait := (h.reads hwait).drifts hdrifts
  owned hwait hkeeps hmode :=
    hdrifts.owned hkeeps (fun hsame => hother hkeeps hsame.1) (h.owned hwait hkeeps hmode)
  unlent hwait hkeeps loan hmem htx := h.unlent hwait hkeeps loan (hloans hkeeps loan hmem htx) htx

/-- A loan stays with its page, unless its borrower drops it. -/
theorem Loan.Sound.drifts (h : loan.Sound before) (hkeeps : regime ≠ .free)
    (hdrifts : Drifts regime actor drops before after)
    (hkept : ¬(loan.tx = actor ∧ drops loan.page)) : loan.Sound after := by
  intro hmode
  obtain ⟨howner, hpeek⟩ := h hmode
  exact ⟨hdrifts.owned hkeeps hkept howner, (hdrifts.resident hkeeps hkept howner hpeek).1⟩

end Spared

namespace Session

variable {regime : Regime} {session : Session} {id : Nat} {tx : TxId} {call : Call} {pool : Pool}
  {drops : PageId → Prop}

theorem Tidy.hosts (h : session.Tidy regime) (hidle : regime ≠ .free → ∀ task ∈ session.tasks,
    task.id ≠ id → task.call.tx ≠ tx) : session.Hosts regime id tx where
  tidy := h.tidy
  others task hmem hid := ⟨fun hkeeps => hidle hkeeps task hmem hid, h.suits task hmem⟩
  one_each hkeeps task hmem other hother _ _ htx := h.one_each hkeeps task hmem other hother htx
  lent := h.lent

theorem Tidy.hosts_task (h : session.Tidy regime) {task : Task} (hmem : task ∈ session.tasks) :
    session.Hosts regime task.id task.call.tx :=
  h.hosts fun hkeeps other hother hid htx => hid (h.one_each hkeeps other hother task hmem htx)

theorem Hosts.drifts (h : session.Hosts regime id tx)
    (hdrifts : Drifts regime tx (fun _ => False) session.pool pool) :
    Hosts regime { session with pool } id tx where
  tidy := hdrifts.tidy
  others task hmem hid := by
    obtain ⟨htx, htask⟩ := h.others task hmem hid
    exact ⟨htx, htask.spared hdrifts htx fun _ _ hloan _ => hloan⟩
  one_each := h.one_each
  lent hkeeps loan hmem := (h.lent hkeeps loan hmem).drifts hkeeps hdrifts fun hsame => hsame.2

theorem Hosts.close (h : session.Hosts regime id call.tx) {outcome : Outcome}
    (hgives : outcome.Gives regime session.pool call) :
    (session.close id call outcome).Tidy regime := by
  have hold : ∀ task ∈ (session.close id call outcome).tasks, task ∈ session.tasks ∧ task.id ≠ id :=
    fun task hmem => by simpa [Session.close] using List.mem_filter.1 hmem
  refine ⟨h.tidy, ?_, ?_, ?_⟩
  · intro hkeeps task hmem other hother
    obtain ⟨hmem, hid⟩ := hold task hmem
    obtain ⟨hother, hid'⟩ := hold other hother
    exact h.one_each hkeeps task hmem other hother hid hid'
  · intro task hmem
    obtain ⟨hmem, hid⟩ := hold task hmem
    obtain ⟨htx, htask⟩ := h.others task hmem hid
    have hdrifts : Drifts regime call.tx (fun _ => False) session.pool session.pool := .refl h.tidy
    refine htask.spared hdrifts htx ?_
    intro hkeeps loan hloan hborrower
    rcases loans_close hloan with hloan | ⟨_, _, _, _, _, rfl⟩
    · exact hloan
    · exact absurd hborrower.symm (htx hkeeps)
  · intro hkeeps loan hmem
    rcases loans_close hmem with hloan | ⟨page, mode, ref, hcall, hresult, rfl⟩
    · exact h.lent hkeeps loan hloan
    · intro hmode
      obtain ⟨page', mode', hcall', hpeek, howner⟩ := hgives ref hresult
      cases hcall.symm.trans hcall'
      exact ⟨howner hkeeps hmode, hpeek⟩

/-- The task of a call that goes on waiting joins the tasks of the others. -/
theorem Hosts.tidy_of_tasks (h : session.Hosts regime id tx) {after : Session} (task : Task)
    (hpool : after.pool = session.pool) (hlog : after.log = session.log)
    (htasks : ∀ other ∈ after.tasks, (other ∈ session.tasks ∧ other.id ≠ id) ∨ other = task)
    (hid : task.id = id) (htx : task.call.tx = tx)
    (htask : task.Suits regime session.pool session.loans) : after.Tidy regime := by
  have hloans : after.loans = session.loans := by rw [loans, loans, hlog]
  refine ⟨hpool ▸ h.tidy, ?_, ?_, ?_⟩
  · intro hkeeps first hfirst second hsecond hsame
    rcases htasks first hfirst with ⟨hold, hne⟩ | rfl
    · rcases htasks second hsecond with ⟨hold', hne'⟩ | rfl
      · exact h.one_each hkeeps first hold second hold' hne hne' hsame
      · exact absurd (hsame.trans htx) ((h.others first hold hne).1 hkeeps)
    · rcases htasks second hsecond with ⟨hold', hne'⟩ | rfl
      · exact absurd (hsame.symm.trans htx) ((h.others second hold' hne').1 hkeeps)
      · rfl
  · intro other hother
    rw [hpool, hloans]
    rcases htasks other hother with ⟨hold, hne⟩ | rfl
    · exact (h.others other hold hne).2
    · exact htask
  · rw [hpool, hloans]
    exact h.lent

theorem Hosts.suspend (h : session.Hosts regime id call.tx) {operation : Operation}
    (hsuits : operation.Suits regime session.pool call)
    (hfresh : operation.Fresh regime session.pool call) :
    (session.suspend id call operation).Tidy regime := by
  have hdrifts : Drifts regime call.tx (fun _ => False) session.pool
      (session.suspend id call operation).pool := .locks_of_table h.tidy _ rfl
  have htasks : ∀ other ∈ (session.suspend id call operation).tasks,
      (other ∈ session.tasks ∧ other.id ≠ id) ∨ other = ⟨id, call, operation, .issued⟩ := by
    intro other hother
    rcases List.mem_append.1 hother with hold | hnew
    · exact .inl (by simpa using hold)
    · exact .inr (List.mem_singleton.1 hnew)
  exact (h.drifts hdrifts).tidy_of_tasks ⟨id, call, operation, .issued⟩ rfl rfl htasks rfl rfl
    ⟨hsuits.of_table_eq hdrifts rfl, hfresh.of_table_eq rfl, nofun, nofun, nofun, nofun⟩

theorem Hosts.setWait {task : Task} (h : session.Hosts regime task.id task.call.tx) {wait : Wait}
    (htask : Task.Suits { task with wait } regime session.pool session.loans) :
    (session.setWait task wait).Tidy regime := by
  refine h.tidy_of_tasks { task with wait } rfl rfl (fun other hother => ?_) rfl rfl htask
  obtain ⟨old, hold, rfl⟩ := List.mem_map.1 hother
  split
  · exact .inr rfl
  · next hne => exact .inl ⟨hold, hne⟩

/-- A stretch of a call gives an operation that waits, or an end. -/
theorem Hosts.after (h : session.Hosts regime id call.tx) (step : Action Step)
    (hstep : Ends step session.pool
      (fun step after => Drifts regime call.tx (fun _ => False) session.pool after ∧
        step.Suits regime after call)
      (fun _ after => Drifts regime call.tx (fun _ => False) session.pool after))
    (tuple : Option Tuple) : (session.after id call tuple (step session.pool)).Tidy regime := by
  unfold Ends at hstep
  unfold Session.after
  split
  · next failure pool hrun =>
    rw [hrun] at hstep
    exact (h.drifts hstep).close (Outcome.gives_error regime pool call failure tuple)
  · next operation pool hrun =>
    rw [hrun] at hstep
    exact (h.drifts hstep.1).suspend hstep.2.1 hstep.2.2
  · next outcome pool hrun =>
    rw [hrun] at hstep
    exact (h.drifts hstep.1).close hstep.2

section Tasks

variable {task : Task} (h : session.Hosts regime task.id task.call.tx)
include h

theorem Hosts.fail {failure : Failure}
    (hdrifts : Drifts regime task.call.tx (fun _ => False) session.pool pool) :
    (session.resume task (.error failure pool)).Tidy regime :=
  h.after (fun _ => .error failure pool) hdrifts _

variable (hsuits : task.operation.Suits regime session.pool task.call)
  (hfresh : task.operation.Fresh regime session.pool task.call)
include hsuits hfresh

theorem Hosts.arrive {page : Page}
    (hpage : session.pool.Reads regime task.operation.request.page page)
    (howner : regime ≠ .free → task.operation.request.mode = .exclusive →
      OwnedBy (session.pool.locks.table.records task.operation.request.page) task.call.tx) :
    (session.arrive task page).Tidy regime := by
  refine h.after _ ?_ _
  refine (h.tidy.ends_install task.call.tx (fun _ => False) hpage).bind ?_ fun _ _ hafter => hafter
  intro ref middle hmiddle
  obtain ⟨hdrifts, hlocks, hpeek⟩ := hmiddle
  have htable := congrArg LockManager.table hlocks
  refine (hdrifts.tidy.ends_proceed hpeek (hsuits.of_table_eq hdrifts htable)
    (hfresh.of_table_eq htable) ?_).mono
    (fun _ _ hafter => ⟨hdrifts.trans hafter.1, hafter.2⟩) fun _ _ hafter => hdrifts.trans hafter
  rw [hlocks]
  exact howner

/-- A task that has got its lock goes on with its page, or reads it first. -/
theorem Hosts.granted
    (howner : regime ≠ .free → task.operation.request.mode = .exclusive →
      OwnedBy (session.pool.locks.table.records task.operation.request.page) task.call.tx) :
    (session.granted task).Tidy regime := by
  have hfetch := h.tidy.ends_fetch task.call.tx (fun _ => False) task.operation.request.page
  unfold Ends at hfetch
  unfold Session.granted
  split
  · exact h.after (fun pool => .ok (.answer .unit) pool) ⟨.refl h.tidy,
      Outcome.gives_ok regime session.pool task.call none fun _ => nofun⟩ _
  split
  · next failure pool hrun =>
    rw [hrun] at hfetch
    exact h.fail hfetch
  · next ref pool hrun =>
    rw [hrun] at hfetch
    obtain ⟨hdrifts, hlocks, hpeek⟩ := hfetch
    have htable := congrArg LockManager.table hlocks
    refine (h.drifts hdrifts).after (task.operation.proceed ref)
      (hdrifts.tidy.ends_proceed hpeek (hsuits.of_table_eq hdrifts htable)
        (hfresh.of_table_eq htable) ?_) _
    rw [hlocks]
    exact howner
  · next page pool hrun =>
    rw [hrun] at hfetch
    obtain ⟨hdrifts, hlocks, habsent, hpage⟩ := hfetch
    have h' := h.drifts hdrifts
    have htable := congrArg LockManager.table hlocks
    have hsuits' := hsuits.of_table_eq hdrifts htable
    have hfresh' := hfresh.of_table_eq htable
    have howner' : regime ≠ .free → task.operation.request.mode = .exclusive →
        OwnedBy (pool.locks.table.records task.operation.request.page) task.call.tx := by
      rw [hlocks]
      exact howner
    dsimp only
    split
    · refine h'.setWait ⟨hsuits', hfresh', nofun, ?_, fun _ => howner', ?_⟩
      · intro loaded hwait
        rw [← Wait.reading.inj hwait]
        exact hpage
      · -- what is lent is in the cache, and this page is not
        intro _ _ hkeeps loan hloan _ hmode hsame
        have hpeek := (h'.lent hkeeps loan hloan hmode).2
        rw [hsame, habsent] at hpeek
        cases hpeek
    · exact h'.arrive hsuits' hfresh' hpage howner'

/-- A request that nothing blocks is granted, and its task goes on. -/
theorem Hosts.attempt (budget : Budget) : (session.attempt task budget).Tidy regime := by
  have htx := hsuits.tx_eq
  have hcases := session.pool.locks.attempt_cases task.operation.request budget session.now
  unfold Session.attempt
  split
  · next locks hattempt =>
    rw [hattempt] at hcases
    rcases hcases with ⟨_, hfree, htable⟩ | ⟨hne, _⟩
    · have hdrifts : Drifts regime task.call.tx (fun _ => False) session.pool
          { session.pool with locks } := htx ▸ .grant h.tidy hfree htable
      refine (h.drifts hdrifts).granted (hsuits.granted h.tidy hfree htable)
        (hfresh.granted hsuits hfree htable) fun _ hmode => ?_
      exact (ownedBy_granted hfree htable).2 (.inr ⟨rfl, htx.symm, hmode⟩)
    · exact absurd rfl hne
  · next locks hattempt =>
    rw [hattempt] at hcases
    obtain ⟨_, htable⟩ := hcases.resolve_left fun hgranted => nomatch hgranted.1
    have hdrifts : Drifts regime task.call.tx (fun _ => False) session.pool
        { session.pool with locks } := .locks_of_table h.tidy locks htable
    refine (h.drifts hdrifts).setWait ⟨hsuits.of_table_eq hdrifts htable,
      hfresh.of_table_eq htable, ?_, nofun, nofun, nofun⟩
    -- an owner is not blocked
    intro _ _ _ _ howner
    dsimp only at howner
    rw [htable, ← htx] at howner
    have hfree := LockTable.blockers_of_ownedBy h.tidy.compatible howner
    rw [LockManager.attempt_of_free hfree] at hattempt
    cases hattempt
  · next error locks hattempt =>
    rw [hattempt] at hcases
    obtain ⟨_, htable⟩ := hcases.resolve_left fun hgranted => nomatch hgranted.1
    exact h.fail (.locks_of_table h.tidy locks htable)

theorem Hosts.evaluate : (session.evaluate task).Tidy regime := by
  have hdrifts : Drifts regime task.call.tx (fun _ => False) session.pool
      { session.pool with locks := session.pool.locks.enter task.operation.request.tx } :=
    .locks_of_table h.tidy _ rfl
  have h' := h.drifts hdrifts
  have hsuits' := hsuits.of_table_eq hdrifts rfl
  unfold Session.evaluate
  dsimp only
  split
  · next budget _ => exact h'.attempt hsuits' hfresh budget
  · exact h'.fail (.refl h'.tidy)

theorem Hosts.wake (budget : Budget) (timedOut : Bool) (elapsed : Nat) :
    (session.wake task budget timedOut elapsed).Tidy regime := by
  have h' : Hosts regime { session with now := session.now + elapsed } task.id task.call.tx :=
    ⟨h.tidy, h.others, h.one_each, h.lent⟩
  exact h'.attempt hsuits hfresh (budget.afterWait timedOut)

end Tasks

theorem Tidy.start (h : session.Tidy regime) (hidle : regime ≠ .free → session.Idle call.tx)
    (hadmits : regime = .strict → session.pool.Admits call) :
    (session.start id call).Tidy regime := by
  unfold Session.start
  split
  · exact h
  · exact (h.hosts fun hkeeps task hmem _ => hidle hkeeps task hmem).after call.start
      (h.tidy.ends_start hadmits) _

theorem Tidy.deliver (h : session.Tidy regime) : session.deliver.Tidy regime := by
  have hdrifts : ∀ {tx}, Drifts regime tx (fun _ => False) session.pool session.deliver.pool :=
    .locks_of_table h.tidy _ rfl
  have htasks : ∀ task ∈ session.deliver.tasks, ∃ old ∈ session.tasks, old.id = task.id ∧
      old.call = task.call ∧ (old.Suits regime session.pool session.loans →
        task.Suits regime session.pool session.loans) := by
    intro task hmem
    obtain ⟨old, hold, rfl⟩ := List.mem_map.1 hmem
    refine ⟨old, hold, ?_⟩
    unfold notifyTask
    split
    · next hwait =>
      exact ⟨rfl, rfl, fun hsuits => ⟨hsuits.suits, hsuits.fresh, fun _ => hsuits.blocked hwait,
        nofun, nofun, nofun⟩⟩
    · exact ⟨rfl, rfl, fun hsuits => hsuits⟩
  -- the locks' news are nobody's doing, so any transaction but the task's may stand for the actor
  refine ⟨(@hdrifts 0).tidy, ?_, ?_, ?_⟩
  · intro hkeeps task hmem other hother hsame
    obtain ⟨old, hold, hid, hcall, _⟩ := htasks task hmem
    obtain ⟨old', hold', hid', hcall', _⟩ := htasks other hother
    rw [← hid, ← hid']
    exact h.one_each hkeeps old hold old' hold' (by rw [hcall, hcall', hsame])
  · intro task hmem
    obtain ⟨old, hold, _, _, hsuits⟩ := htasks task hmem
    exact (hsuits (h.suits old hold)).spared (@hdrifts (task.call.tx + 1))
      (fun _ => (Nat.succ_ne_self _).symm) fun _ _ hloan _ => hloan
  · intro hkeeps loan hmem
    exact (h.lent hkeeps loan hmem).drifts hkeeps (@hdrifts 0) fun hsame => hsame.2

theorem Tidy.resume (h : session.Tidy regime) {event : Event}
    (hevent : event = .evaluate id ∨ (∃ timedOut elapsed, event = .wake id timedOut elapsed) ∨
      event = .load id) : (session.react event).Tidy regime := by
  cases htask : session.task? id with
  | none =>
      have hsame : session.react event = session := by
        rcases hevent with rfl | ⟨timedOut, elapsed, rfl⟩ | rfl <;> simp only [react, htask]
      rw [hsame]
      exact h
  | some task =>
      obtain ⟨hmem, rfl⟩ := task?_mem htask
      have hhosts := h.hosts_task hmem
      have hsuits := h.suits task hmem
      rcases hevent with rfl | ⟨timedOut, elapsed, rfl⟩ | rfl
      · simp only [react, htask]
        split
        · exact hhosts.evaluate hsuits.suits hsuits.fresh
        · exact h
      · simp only [react, htask]
        split
        · next budget _ _ => exact hhosts.wake hsuits.suits hsuits.fresh budget timedOut elapsed
        · exact h
      · simp only [react, htask]
        split
        · next page hwait =>
          exact hhosts.arrive hsuits.suits hsuits.fresh (hsuits.reads hwait) (hsuits.owned hwait)
        · exact h

section Commands

variable (h : session.Tidy regime)
include h

/-- A command of a transaction at rest, or of nobody. Its loans end where it drops their pages. -/
theorem Tidy.of_command {after : Session} (htasks : after.tasks = session.tasks)
    (hloans : ∀ loan ∈ after.loans, loan ∈ session.loans)
    (hidle : regime ≠ .free → session.Idle tx)
    (hdrifts : Drifts regime tx drops session.pool after.pool)
    (hlent : regime ≠ .free → ∀ loan ∈ after.loans, loan.tx = tx → drops loan.page →
      loan.Sound after.pool) : after.Tidy regime where
  tidy := hdrifts.tidy
  one_each := by
    rw [htasks]
    exact h.one_each
  suits := by
    rw [htasks]
    exact fun task hmem => (h.suits task hmem).spared hdrifts
      (fun hkeeps => hidle hkeeps task hmem) fun _ loan hloan _ => hloans loan hloan
  lent hkeeps loan hmem := by
    by_cases hdropped : loan.tx = tx ∧ drops loan.page
    · exact hlent hkeeps loan hmem hdropped.1 hdropped.2
    · exact (h.lent hkeeps loan (hloans loan hmem)).drifts hkeeps hdrifts hdropped

/-- A command that is nobody's. -/
theorem Tidy.of_service {after : Session} (htasks : after.tasks = session.tasks)
    (hloans : after.loans = session.loans)
    (hdrifts : ∀ tx, Drifts regime tx (fun _ => False) session.pool after.pool) :
    after.Tidy regime where
  tidy := (hdrifts 0).tidy
  one_each := by
    rw [htasks]
    exact h.one_each
  suits := by
    rw [htasks, hloans]
    exact fun task hmem => (h.suits task hmem).spared (hdrifts (task.call.tx + 1))
      (fun _ => (Nat.succ_ne_self _).symm) fun _ _ hloan _ => hloan
  lent hkeeps loan hmem := by
    rw [hloans] at hmem
    exact (h.lent hkeeps loan hmem).drifts hkeeps (hdrifts 0) fun hsame => hsame.2

end Commands

theorem execute_cases {command : Command} {ok : Answer → Pool → Prop}
    {fails : Failure → Pool → Prop}
    (h : Ends (session.action command) session.pool ok fails) :
    (∃ answer pool, ok answer pool ∧ session.execute command =
        { session with pool, log := .command command (.ok answer) :: session.log }) ∨
      ∃ failure pool, fails failure pool ∧ session.execute command =
        { session with pool, log := .command command (.error failure) :: session.log } := by
  unfold Ends at h
  unfold Session.execute
  split
  · next answer pool hrun =>
    rw [hrun] at h
    exact .inl ⟨answer, pool, h, rfl⟩
  · next failure pool hrun =>
    rw [hrun] at h
    exact .inr ⟨failure, pool, h, rfl⟩

section Commands

variable (h : session.Tidy regime)
include h

theorem Tidy.execute_service {command : Command}
    (hloans : ∀ result, Entry.loans (.command command result :: session.log) = session.loans)
    (hdrifts : ∀ tx, Ends (session.action command) session.pool
      (fun _ after => Drifts regime tx (fun _ => False) session.pool after)
      fun _ after => Drifts regime tx (fun _ => False) session.pool after) :
    (session.execute command).Tidy regime := by
  refine h.of_service (tasks_execute ..) ?_ fun tx => ?_
  · obtain ⟨result, hlog⟩ := session.log_execute command
    rw [loans, hlog]
    exact hloans result
  · rcases execute_cases (hdrifts tx) with ⟨_, _, hafter, heq⟩ | ⟨_, _, hafter, heq⟩
    · rw [heq]
      exact hafter
    · rw [heq]
      exact hafter

theorem Tidy.execute_write {handle : Nat} {writer : TxId} {offset : Nat} {chunk : Bytes}
    (hwritable : regime = .strict → session.Writable handle writer) :
    (session.execute (.write handle writer offset chunk)).Tidy regime := by
  cases hentry : session.handle? handle with
  | none =>
      refine h.execute_service (fun _ => rfl) fun tx => ?_
      simp only [action, onHandle, hentry]
      exact .refl h.tidy
  | some entry =>
      obtain ⟨result, hresult⟩ := session.execute_write hentry writer offset chunk
      rw [hresult]
      refine h.of_service rfl rfl fun tx => ?_
      refine h.tidy.drifts_rewritten (Page.rewritten_overwritten _ writer offset chunk) ?_
      intro hstrict _
      obtain ⟨entry', hentry', loan, hmem, rfl, hmode, href⟩ := hwritable hstrict
      have hsame : entry' = entry := Option.some.inj (hentry'.symm.trans hentry)
      obtain ⟨howner, hpeek⟩ := h.lent (by simp [hstrict]) loan hmem hmode
      rw [← hsame, ← href, h.tidy.named hpeek]
      exact howner

theorem Tidy.execute_release {tx : TxId} {page : PageId}
    (hidle : regime ≠ .free → session.Idle tx)
    (hclean : regime = .strict → session.pool.Unmodified tx page) :
    (session.execute (.release tx page)).Tidy regime := by
  have htable : (session.pool.locks.release tx page).2.table =
      session.pool.locks.table.release tx page := by
    unfold LockManager.release
    split <;> rfl
  have hexecute : session.execute (.release tx page) =
      { session with
        pool := { session.pool with locks := (session.pool.locks.release tx page).2 }
        log := .command (.release tx page) (.ok (.flag (session.pool.locks.release tx page).1)) ::
          session.log } := rfl
  rw [hexecute]
  refine @of_command _ _ tx (· = page) h _ rfl (fun loan hmem => List.mem_of_mem_filter hmem) hidle
    ?_ ?_
  · refine @Drifts.unlock _ _ _ _ h.tidy tx _ fun id => ?_
    rw [htable, LockTable.records_release]
    by_cases hsame : id = page
    · rw [if_pos hsame, hsame]
      refine .inr ⟨rfl, fun _ _ => ⟨rfl, rfl⟩, fun hstrict howner ref hpeek => ?_⟩
      exact hclean hstrict (LockTable.mode?_eq_exclusive_iff.2 howner) ref hpeek
    · exact .inl (if_neg hsame)
  · intro _ loan hmem htx hpage
    have := (List.mem_filter.1 hmem).2
    simp [htx, hpage] at this

theorem Tidy.execute_complete {tx : TxId} (hidle : regime ≠ .free → session.Idle tx)
    (hunlent : regime ≠ .free → ∀ loan ∈ session.loans, loan.tx = tx → loan.mode ≠ .exclusive)
    (hloose : regime ≠ .strict) : (session.execute (.completeLocks tx)).Tidy regime := by
  refine @of_command _ _ tx (fun _ => True) h _ rfl (fun _ hmem => hmem) hidle ?_ ?_
  · exact h.tidy.drifts_complete tx fun hstrict => absurd hstrict hloose
  · exact fun hkeeps loan hmem htx _ hmode => absurd hmode (hunlent hkeeps loan hmem htx)

theorem Tidy.execute_finish {ending : Ending} {tx : TxId}
    (hidle : regime ≠ .free → session.Idle tx) :
    (session.execute (.finish ending tx)).Tidy regime := by
  have hends : Ends (session.action (.finish ending tx)) session.pool
      (fun answer after => answer = .unit ∧
        Drifts regime tx (fun _ => True) session.pool after)
      (fun _ after => Drifts regime tx (fun _ => True) session.pool after ∧
        after.locks = session.pool.locks ∧
        (regime ≠ .free → after.cache = session.pool.cache) ∧ regime ≠ .strict) :=
    (h.tidy.ends_finish ending tx).bind (fun _ _ hafter => ⟨rfl, hafter⟩) fun _ _ hfails => hfails
  rcases execute_cases hends with ⟨_, pool, ⟨_, hdrifts⟩, heq⟩ | ⟨_, pool, hfails, heq⟩
  · rw [heq]
    refine h.of_command rfl (fun loan hmem => List.mem_of_mem_filter hmem) hidle hdrifts ?_
    intro _ loan hmem htx
    have := (List.mem_filter.1 hmem).2
    simp [htx] at this
  · obtain ⟨hdrifts, hlocks, hcache, _⟩ := hfails
    rw [heq]
    refine h.of_command rfl (fun _ hmem => hmem) hidle hdrifts ?_
    intro hkeeps loan hmem _ _ hmode
    obtain ⟨howner, hpeek⟩ := h.lent hkeeps loan hmem hmode
    dsimp only
    rw [hlocks, hcache hkeeps]
    exact ⟨howner, hpeek⟩

/-- Where anything goes, so do marks and drops. -/
theorem Tidy.execute_mark {handle : Nat} {tx : TxId} {dirty : Bool} (hfree : regime = .free) :
    (session.execute (.mark handle tx dirty)).Tidy regime := by
  subst hfree
  refine h.execute_service (fun _ => rfl) fun actor => ?_
  simp only [action, onHandle]
  cases session.handle? handle with
  | none => exact .refl h.tidy
  | some entry =>
      rw [ends_onPage]
      exact .setPage h.tidy rfl (fun _ => Page.kept_free ..) fun _ _ _ himage => himage

theorem Tidy.execute_discard {page : PageId} (hfree : regime = .free) :
    (session.execute (.discardPage page)).Tidy regime := by
  subst hfree
  exact h.execute_service (fun _ => rfl) fun _ => .remove h.tidy fun hkeeps => absurd rfl hkeeps

theorem Tidy.execute {command : Command} (hobeys : session.Obeys regime (.command command)) :
    (session.execute command).Tidy regime := by
  have hflush : ∀ tx page, Ends (flushPage page) session.pool
      (fun _ after => Drifts regime tx (fun _ => False) session.pool after)
      fun _ after => Drifts regime tx (fun _ => False) session.pool after := fun tx page =>
    (h.tidy.ends_flushPage tx (fun _ => False) page).mono (fun _ _ hafter => hafter.1.drifts)
      fun _ _ hfails => hfails.1.drifts
  have hflushes : ∀ tx ids, Ends (List.forM ids flushPage) session.pool
      (fun _ after => Drifts regime tx (fun _ => False) session.pool after)
      fun _ after => Drifts regime tx (fun _ => False) session.pool after := fun tx ids =>
    (h.tidy.ends_flushPages tx (fun _ => False) ids).mono (fun _ _ hafter => hafter)
      fun _ _ hfails => hfails.1
  have horders : regime ≠ .free → session.Orders (.command command) := by
    intro hkeeps
    cases regime with
    | free => exact absurd rfl hkeeps
    | orderly => exact hobeys
    | strict => exact Permits.orders hobeys
  have hpermits : regime = .strict → session.Permits (.command command) := by
    intro hstrict
    subst hstrict
    exact hobeys
  cases command with
  | read handle =>
      refine h.execute_service (fun _ => rfl) fun tx => ?_
      unfold Ends
      rw [session.action_read handle]
      exact .refl h.tidy
  | write handle tx offset chunk => exact h.execute_write hpermits
  | mark handle tx dirty => exact h.execute_mark (Classical.not_not.1 fun hkeeps => horders hkeeps)
  | flushPage page =>
      exact h.execute_service (fun _ => rfl) fun tx =>
        (hflush tx page).bind (fun _ _ hafter => hafter) fun _ _ hafter => hafter
  | flushTransaction flushed =>
      exact h.execute_service (fun _ => rfl) fun tx =>
        (hflushes tx _).bind (fun _ _ hafter => hafter) fun _ _ hafter => hafter
  | flushAll =>
      exact h.execute_service (fun _ => rfl) fun tx =>
        (hflushes tx _).bind (fun _ _ hafter => hafter) fun _ _ hafter => hafter
  | discardPage page => exact h.execute_discard (Classical.not_not.1 fun hkeeps => horders hkeeps)
  | release tx page => exact h.execute_release horders fun hstrict => (hpermits hstrict).2
  | completeLocks tx =>
      exact h.execute_complete (fun hkeeps => (horders hkeeps).1) (fun hkeeps => (horders hkeeps).2)
        hpermits
  | finish ending tx => exact h.execute_finish horders

end Commands

theorem Tidy.step (h : session.Tidy regime) {event : Event} (hobeys : session.Obeys regime event) :
    (session.step event).Tidy regime := by
  apply Tidy.deliver
  cases event with
  | start id call =>
      refine h.start (fun hkeeps => ?_) fun hstrict => ?_
      · cases regime with
        | free => exact absurd rfl hkeeps
        | orderly => exact hobeys
        | strict => exact hobeys.1
      · subst hstrict
        exact hobeys.2
  | evaluate id => exact h.resume (.inl rfl)
  | wake id timedOut elapsed => exact h.resume (.inr (.inl ⟨timedOut, elapsed, rfl⟩))
  | load id => exact h.resume (.inr (.inr rfl))
  | command command => exact h.execute hobeys

theorem Tidy.perform_addTable (h : session.Tidy regime) {table : Table}
    (hserves : regime = .strict → session.pool.Serves table) :
    (session.perform (addTable table)).2.Tidy regime := by
  have hends : Ends (addTable table) session.pool
      (fun _ after => ∀ tx, Drifts regime tx (fun _ => False) session.pool after)
      (fun _ after => after = session.pool) := by
    unfold addTable
    rw [ends_bind, ends_get]
    dsimp only
    split
    · rfl
    · exact fun tx => .register h.tidy hserves
  unfold Ends at hends
  unfold perform
  split at hends
  · next _ pool hrun =>
    rw [hrun]
    exact Tidy.deliver (@of_service _ session h { session with pool } rfl rfl hends)
  · next _ pool hrun =>
    rw [hrun, hends]
    exact h.deliver

/-- No turn of a run that minds the rules makes a mess. -/
theorem Tidy.turn (h : session.Tidy regime) {turn : Turn} (hminds : session.Minds regime turn) :
    (session.turn turn).Tidy regime := by
  cases turn with
  | event event => exact h.step hminds
  | register table => exact h.perform_addTable hminds
  | guard ref latch => exact h.of_service rfl rfl fun _ => .setLatch h.tidy ref latch
  | storage volumes =>
      exact h.of_service rfl rfl fun _ => .volumes h.tidy (fun hstrict => (hminds hstrict).1)
        fun hstrict => (hminds hstrict).2

theorem Tidy.takes (h : session.Tidy regime) {turns : List Turn}
    (habides : session.Abides regime turns) : (session.takes turns).Tidy regime := by
  induction turns generalizing session with
  | nil => exact h
  | cons turn rest ih => exact ih (h.turn habides.1) habides.2

theorem abides_free (session : Session) (turns : List Turn) : session.Abides .free turns := by
  induction turns generalizing session with
  | nil => trivial
  | cons turn rest ih =>
      refine ⟨?_, ih _⟩
      cases turn with
      | event event | guard ref latch => trivial
      | register table => exact nofun
      | storage volumes => exact nofun

theorem Follows.abides {events : List Event} (h : session.Follows events) (regime : Regime) :
    session.Abides regime (events.map .event) := by
  induction events generalizing session with
  | nil => trivial
  | cons event rest ih =>
      refine ⟨?_, ih h.2.2⟩
      cases regime with
      | free => trivial
      | orderly => exact h.2.1.orders
      | strict => exact h.2.1

end Session

theorem Pool.Ready.unused {pool : Pool} (h : pool.Ready) (regime : Regime) :
    pool.Unused regime where
  empty := h.empty
  unlocked := h.unlocked
  serves _ table hmem := ⟨h.backed table hmem, h.reliable table hmem, h.strict table hmem⟩

theorem Pool.Unused.tidy {regime : Regime} {pool : Pool} (h : pool.Unused regime) (now : Nat) :
    (Session.ofPool pool now).Tidy regime := by
  have habsent : ∀ {id ref}, pool.cache.peek? id ≠ some ref := fun {id ref} => by
    simp [Cache.peek?, h.empty]
  have htidy : pool.Tidy regime :=
    { nodup := by
        rw [Cache.pages, h.empty]
        exact .nil
      inside := (absurd · habsent)
      named := (absurd · habsent)
      compatible := fun id => by
        rw [h.unlocked]
        exact compatible_nil
      kept := (absurd · habsent)
      backed := fun hstrict table hmem => (h.serves hstrict table hmem).backed
      reliable := fun hstrict table hmem => (h.serves hstrict table hmem).reliable
      guarded := fun hstrict table hmem => (h.serves hstrict table hmem).guarded
      stored := fun _ {_ _} hpeek => absurd hpeek habsent }
  exact
    { tidy := htidy
      one_each := fun _ => List.forall_mem_nil _
      suits := List.forall_mem_nil _
      lent := fun _ => List.forall_mem_nil _ }

namespace Session

/-- A session that a pool that nobody has used comes to by turns that mind the rules. -/
def Reachable (regime : Regime) (session : Session) : Prop :=
  ∃ pool now turns, pool.Unused regime ∧ (ofPool pool now).Abides regime turns ∧
    session = (ofPool pool now).takes turns

variable {regime : Regime} {session : Session}

theorem Reachable.tidy (h : session.Reachable regime) : session.Tidy regime := by
  obtain ⟨pool, now, turns, hunused, habides, rfl⟩ := h
  exact (hunused.tidy now).takes habides

theorem abides_append {turns rest : List Turn} : session.Abides regime (turns ++ rest) ↔
    session.Abides regime turns ∧ (session.takes turns).Abides regime rest := by
  induction turns generalizing session with
  | nil => exact (iff_of_eq (true_and _)).symm
  | cons turn turns ih =>
      rw [List.cons_append, Abides, Abides, ih, and_assoc]
      rfl

/-- A session that minds the rules once more is still one that they allow. -/
theorem Reachable.step (h : session.Reachable regime) {event : Event}
    (hobeys : session.Obeys regime event) : (session.step event).Reachable regime := by
  obtain ⟨pool, now, turns, hunused, habides, rfl⟩ := h
  have hminds : ((ofPool pool now).takes turns).Minds regime (.event event) := hobeys
  refine ⟨pool, now, turns ++ [.event event], hunused,
    abides_append.2 ⟨habides, hminds, trivial⟩, ?_⟩
  rw [takes, takes, List.foldl_append]
  rfl

theorem Reachable.evaluates (h : session.Reachable regime) (id count : Nat) :
    (session.run (List.replicate count (.evaluate id))).Reachable regime := by
  induction count generalizing session with
  | zero => exact h
  | succ count ih =>
      refine ih (h.step ?_)
      cases regime <;> trivial

theorem Follows.reachable {pool : Pool} {now : Nat} {events : List Event}
    (h : (ofPool pool now).Follows events) (hready : pool.Ready) (regime : Regime) :
    ((ofPool pool now).run events).Reachable regime := by
  refine ⟨pool, now, events.map .event, hready.unused regime, h.abides regime, ?_⟩
  rw [takes, List.foldl_map]
  rfl

end Session

end PagePool
