import PagePool.Pool.Completion
import PagePool.Pool.Operation

/-!
Sessions: a pool with the calls that are under way on it. A call runs by itself between two lock
requests; everything else that happens is one event, so a list of events is an interleaving.
-/

namespace PagePool

/-- What a call under way is waiting for. -/
inductive Wait where
  /-- Its lock request has been issued and not been evaluated. -/
  | issued
  /-- Its lock request is blocked; `woken` says that it has been notified of a release. -/
  | blocked (budget : Budget) (woken : Bool)
  /-- A read has taken the bytes of a page and is held up. -/
  | reading (page : Page)
  deriving DecidableEq

/-- A call under way. -/
structure Task where
  id : Nat
  call : Call
  operation : Operation
  wait : Wait
  deriving DecidableEq

/-- A page that was handed out: to whom, under which lock, and the page object. -/
structure Handle where
  tx : TxId
  mode : LockMode
  ref : PageRef
  deriving DecidableEq, Repr

/-- Things done to a pool that wait for nothing. Pages are read and written through handles, which
go by the number of the call that they were handed out to. -/
inductive Command where
  | read (handle : Nat)
  | write (handle : Nat) (tx : TxId) (offset : Nat) (bytes : Bytes)
  | mark (handle : Nat) (tx : TxId) (dirty : Bool)
  | flushPage (page : PageId)
  | flushTransaction (tx : TxId)
  | flushAll
  | discardPage (page : PageId)
  | release (tx : TxId) (page : PageId)
  | completeLocks (tx : TxId)
  | finish (ending : Ending) (tx : TxId)
  deriving DecidableEq

inductive Event where
  | start (id : Nat) (call : Call)
  /-- The lock request of a task is evaluated for the first time. -/
  | evaluate (id : Nat)
  /-- A blocked task ends a wait, woken or after its full time, and its request is evaluated
  again. -/
  | wake (id : Nat) (timedOut : Bool) (elapsed : Nat)
  /-- A task that reads gets its bytes. -/
  | load (id : Nat)
  | command (command : Command)
  deriving DecidableEq

/-- What has come to an end, and how. -/
inductive Entry where
  | call (id : Nat) (call : Call) (outcome : Outcome)
  | command (command : Command) (result : Except Failure Answer)

structure Session where
  pool : Pool
  /-- The time in nanoseconds, by a clock that has been running before the session. -/
  now : Nat
  tasks : List Task
  handles : List (Nat × Handle)
  /-- All that has ended, the latest first. -/
  log : List Entry

namespace Session

def ofPool (pool : Pool) (now : Nat) : Session :=
  { pool, now, tasks := [], handles := [], log := [] }

def task? (session : Session) (id : Nat) : Option Task :=
  session.tasks.find? fun task => task.id = id

def handle? (session : Session) (id : Nat) : Option Handle :=
  (session.handles.find? fun entry => entry.1 = id).map Prod.snd

/-- The outcome of the call that was the last to end under a number. -/
def outcome? (session : Session) (id : Nat) : Option Outcome :=
  session.log.findSome? fun entry =>
    match entry with
    | .call other _ outcome => if other = id then some outcome else none
    | .command .. => none

def setWait (session : Session) (task : Task) (wait : Wait) : Session :=
  { session with
    tasks := session.tasks.map fun other =>
      if other.id = task.id then { task with wait } else other }

def withLocks (session : Session) (locks : LockManager) : Session :=
  { session with pool := { session.pool with locks } }

/-- Hands a page out if that is what a call has ended with. -/
def handOut (session : Session) (id : Nat) (call : Call) (outcome : Outcome) :
    List (Nat × Handle) :=
  match call, outcome.result with
  | .get tx _ mode, .ok (.page ref) => (id, { tx, mode, ref }) :: session.handles
  | _, _ => session.handles

/-- Ends a call. -/
def close (session : Session) (id : Nat) (call : Call) (outcome : Outcome) : Session :=
  { session with
    tasks := session.tasks.filter fun task => task.id ≠ id
    handles := session.handOut id call outcome
    log := .call id call outcome :: session.log }

/-- Issues the next lock request of a call. -/
def suspend (session : Session) (id : Nat) (call : Call) (operation : Operation) : Session :=
  { session with
    pool := { session.pool with locks := session.pool.locks.issue operation.request.tx }
    tasks := session.tasks.filter (fun task => task.id ≠ id) ++
      [{ id, call, operation, wait := .issued }] }

/-- Goes on after a stretch of a call; `tuple` is what an insertion has left of its tuple if the
stretch fails. -/
def after (session : Session) (id : Nat) (call : Call) (tuple : Option Tuple) :
    EStateM.Result Failure Pool Step → Session
  | .error failure pool => { session with pool }.close id call { result := .error failure, tuple }
  | .ok (.ask operation) pool => { session with pool }.suspend id call operation
  | .ok (.done outcome) pool => { session with pool }.close id call outcome

/-- Runs a call up to its first lock request. A number that is in use is not given twice. -/
def start (session : Session) (id : Nat) (call : Call) : Session :=
  match session.task? id with
  | some _ => session
  | none => session.after id call call.inserted? (call.start session.pool)

/-- Goes on with a task. -/
def resume (session : Session) (task : Task) (result : EStateM.Result Failure Pool Step) :
    Session :=
  session.after task.id task.call task.operation.goal.inserted? result

/-- Goes on with a page that was read from storage. -/
def arrive (session : Session) (task : Task) (page : Page) : Session :=
  session.resume task ((install page >>= task.operation.proceed) session.pool)

/-- Goes on with a task that has got its lock: its page is looked up, and a read behind a closed
gate is held up. -/
def granted (session : Session) (task : Task) : Session :=
  match task.operation.goal with
  | .lock => session.resume task (.ok (.answer .unit) session.pool)
  | _ =>
      match fetch task.operation.request.page session.pool with
      | .error failure pool => session.resume task (.error failure pool)
      | .ok (.resident ref) pool => session.resume task (task.operation.proceed ref pool)
      | .ok (.loaded page) pool =>
          let session := { session with pool }
          if pool.isGated page.id then session.setWait task (.reading page)
          else session.arrive task page

/-- Evaluates the lock request of a task. -/
def attempt (session : Session) (task : Task) (budget : Budget) : Session :=
  match session.pool.locks.attempt task.operation.request budget session.now with
  | (.granted, locks) => (session.withLocks locks).granted task
  | (.wait, locks) => (session.withLocks locks).setWait task (.blocked budget false)
  | (.refused error, locks) =>
      session.resume task (.error (.error error) { session.pool with locks })

/-- The first evaluation of a request sets its deadline. -/
def evaluate (session : Session) (task : Task) : Session :=
  let session := session.withLocks (session.pool.locks.enter task.operation.request.tx)
  match Budget.start session.pool.locks.policy session.now with
  | .ok budget => session.attempt task budget
  | .error failure => session.resume task (.error failure session.pool)

/-- A wait that has come to its end. -/
def wake (session : Session) (task : Task) (budget : Budget) (timedOut : Bool) (elapsed : Nat) :
    Session :=
  { session with now := session.now + elapsed }.attempt task (budget.afterWait timedOut)

/-- A blocked task is woken if the shard of its page has been notified. -/
def notifyTask (locks : LockManager) (task : Task) : Task :=
  match task.wait with
  | .blocked budget woken =>
      let notified := locks.notified.contains (locks.shard task.operation.request.page)
      { task with wait := .blocked budget (woken || notified) }
  | _ => task

/-- Wakes the tasks whose shards have been notified. -/
def deliver (session : Session) : Session :=
  let locks := session.pool.locks
  { session with
    pool := { session.pool with locks := { locks with notified := [] } }
    tasks := session.tasks.map (notifyTask locks) }

/-- A command on a page that was never handed out does nothing. -/
def onHandle (session : Session) (id : Nat) (step : EStateM Failure Page Answer) : Action Answer :=
  match session.handle? id with
  | some handle => onPage handle.ref step
  | none => return .unit

def action (session : Session) : Command → Action Answer
  | .read handle => session.onHandle handle do return .bytes (← get).data
  | .write handle tx offset bytes => session.onHandle handle do
      Page.write tx offset bytes
      return .unit
  | .mark handle tx dirty => session.onHandle handle do
      modify (·.mark tx dirty)
      return .unit
  | .flushPage page => do PagePool.flushPage page; return .unit
  | .flushTransaction tx => do PagePool.flushTransaction tx; return .unit
  | .flushAll => do PagePool.flushAll; return .unit
  | .discardPage page => do PagePool.discardPage page; return .unit
  | .release tx page => return .flag (← releaseLock tx page)
  | .completeLocks tx => return .pages (← PagePool.completeLocks tx)
  | .finish ending tx => do PagePool.finish ending tx; return .unit

/-- Carries a command out. -/
def execute (session : Session) (command : Command) : Session :=
  match session.action command session.pool with
  | .ok answer pool => { session with pool, log := .command command (.ok answer) :: session.log }
  | .error failure pool =>
      { session with pool, log := .command command (.error failure) :: session.log }

/-- One event, before anybody is woken by it. An event that a task does not wait for leaves it
alone. -/
def react (session : Session) : Event → Session
  | .start id call => session.start id call
  | .evaluate id =>
      match session.task? id with
      | some task =>
          match task.wait with
          | .issued => session.evaluate task
          | _ => session
      | none => session
  | .wake id timedOut elapsed =>
      match session.task? id with
      | some task =>
          match task.wait with
          | .blocked budget _ => session.wake task budget timedOut elapsed
          | _ => session
      | none => session
  | .load id =>
      match session.task? id with
      | some task =>
          match task.wait with
          | .reading page => session.arrive task page
          | _ => session
      | none => session
  | .command command => session.execute command

def step (session : Session) (event : Event) : Session :=
  (session.react event).deliver

def run (session : Session) (events : List Event) : Session :=
  events.foldl step session

/-- Runs a step on the pool from outside all calls. -/
def perform {Result : Type} (session : Session) (step : Action Result) :
    Except Failure Result × Session :=
  match step session.pool with
  | .ok result pool => (.ok result, { session with pool }.deliver)
  | .error failure pool => (.error failure, { session with pool }.deliver)

end Session

end PagePool
