import PagePool.Session

/-!
Sessions that are left to themselves: each number has a plan of calls to make one after the other,
and whatever can happen without anybody doing anything happens.
-/

namespace PagePool

/-- Calls to be made one after the other, each one a matter of how many were made before it. -/
structure Plan where
  made : Nat
  count : Nat
  call : Nat → Call

namespace Plan

def single (call : Call) : Plan :=
  { made := 0, count := 1, call := fun _ => call }

/-- Insertions of tuples of equal cells, one more in every tuple. -/
def fill (tx : TxId) (table : UInt32) (start : Int) (width count : Nat) : Except Failure Plan := do
  if count ≠ 0 then
    let _ ← checkedCount width cellSize
  let tuple := fun i => Tuple.constant (Int32.ofInt (start + Int.ofNat i)) width
  return { made := 0, count, call := fun i => .insert tx table (tuple i) }

def next? (plan : Plan) : Option (Call × Plan) :=
  if plan.made < plan.count then
    some (plan.call plan.made, { plan with made := plan.made + 1 })
  else
    none

end Plan

structure Batch where
  session : Session
  /-- The calls that are still to be made under each number, after the one under way. -/
  plans : List (Nat × Plan)
  /-- Whether a wait ends by itself. Otherwise only a notification ends it. -/
  waitsEnd : Bool

namespace Batch

/-- The time by the clock when a batch begins: a day after the clock. -/
def beginning : Nat := 86400 * 1000000000

def ofPool (pool : Pool) (waitsEnd : Bool) : Batch :=
  { session := .ofPool pool beginning, plans := [], waitsEnd }

/-- The event that a task is waiting for, if nobody has to do anything for it. -/
def eventFor (batch : Batch) (task : Task) : Option Event :=
  let pool := batch.session.pool
  match task.wait with
  | .issued => some (.evaluate task.id)
  | .reading page => if pool.isGated page.id then none else some (.load task.id)
  | .blocked _ true => some (.wake task.id false 0)
  | .blocked _ false =>
      if batch.waitsEnd then some (.wake task.id true pool.locks.policy.wait) else none

/-- The next event. A call that has issued a request goes on before anybody else is woken. -/
def event? (batch : Batch) : Option Event :=
  let tasks := batch.session.tasks
  (tasks.filter (·.wait = .issued) ++ tasks).findSome? batch.eventFor

/-- Nothing is under way under a number, and nothing is planned. -/
def isDone (batch : Batch) (id : Nat) : Bool :=
  (batch.session.task? id).isNone && batch.plans.all fun plan => plan.1 ≠ id

/-- How the calls under a number have ended; no calls at all have ended well. -/
def outcome (batch : Batch) (id : Nat) : Outcome :=
  (batch.session.outcome? id).getD { result := .ok .unit, tuple := none }

def add (batch : Batch) (id : Nat) (plan : Plan) : Batch :=
  { batch with plans := batch.plans ++ [(id, plan)] }

def setPlan (batch : Batch) (id : Nat) (plan : Plan) : Batch :=
  { batch with plans := batch.plans.map fun entry => if entry.1 = id then (id, plan) else entry }

def dropPlan (batch : Batch) (id : Nat) : Batch :=
  { batch with plans := batch.plans.filter fun plan => plan.1 ≠ id }

/-- Makes the next call of a plan; a plan ends with the first call that fails. -/
def follow (batch : Batch) (id : Nat) (plan : Plan) : Batch :=
  match (batch.outcome id).result, plan.next? with
  | .ok _, some (call, rest) =>
      { batch.setPlan id rest with session := batch.session.step (.start id call) }
  | _, _ => batch.dropPlan id

/-- The next thing that happens by itself, if anything does. -/
def advance? (batch : Batch) : Option Batch :=
  match batch.event? with
  | some event => some { batch with session := batch.session.step event }
  | none =>
      (batch.plans.find? fun plan => (batch.session.task? plan.1).isNone).map fun plan =>
        batch.follow plan.1 plan.2

end Batch

end PagePool
