import PagePool.Pool.Access

/-!
Operations that take locks on their way. An operation is cut at its lock requests: it is data that
says which lock it asks for and what it does once it has it, so that other transactions can act in
between.
-/

namespace PagePool

/-- How far an insertion into a heap table has come. -/
inductive Placement where
  /-- A page is looked at for a free slot; `bound` pages are looked at in all, and `held` says
  whether the transaction had locked this one before. -/
  | inspect (index bound : Nat) (held : Bool)
  /-- The page has a free slot. -/
  | upgrade
  /-- No page had one, and the table has a new page. -/
  | append
  deriving DecidableEq, Repr

/-- A tuple on its way into a table. If the pool runs the insertion, it holds the pages that are
changed; otherwise the table is left to itself. -/
structure Insertion where
  table : Table
  tuple : Tuple
  pooled : Bool
  deriving DecidableEq

/-- What an operation does with the page it asks for. -/
inductive Goal where
  | lock
  | page
  | insert (insertion : Insertion) (layout : Layout) (placement : Placement)
  /-- The cell goes to the page with the given index, and the rest of the cells to the pages after
  it. -/
  | stamp (insertion : Insertion) (index : Nat) (cell : Cell) (rest : List Cell)
      (changed : List PageRef)
  | delete (layout : Layout) (tuple : Tuple) (pooled : Bool)
  | unstamp (pooled : Bool)
  /-- The tuples of the pages before the one with the given index have been found. -/
  | scan (table : Table) (layout : Layout) (index bound : Nat) (found : List Tuple)
  deriving DecidableEq

structure Operation where
  request : Request
  goal : Goal
  deriving DecidableEq

/-- What a transaction can ask for that takes locks. -/
inductive Call where
  | acquire (tx : TxId) (page : PageId) (mode : LockMode)
  | get (tx : TxId) (page : PageId) (mode : LockMode)
  | insert (tx : TxId) (table : UInt32) (tuple : Tuple)
  | delete (tx : TxId) (tuple : Tuple)
  /-- The table's own insertion, around the pool. -/
  | insertInto (tx : TxId) (table : Table) (tuple : Tuple)
  | deleteFrom (tx : TxId) (table : Table) (tuple : Tuple)
  | scan (tx : TxId) (table : Table)
  deriving DecidableEq

namespace Call

def tx : Call → TxId
  | .acquire tx .. | .get tx .. | .insert tx .. | .delete tx .. | .insertInto tx ..
  | .deleteFrom tx .. | .scan tx .. => tx

/-- The tuple that an insertion is given. -/
def inserted? : Call → Option Tuple
  | .insert _ _ tuple | .insertInto _ _ tuple => some tuple
  | _ => none

end Call

/-- What an operation gives back if it succeeds. -/
inductive Answer where
  | unit
  | flag (value : Bool)
  | page (ref : PageRef)
  | bytes (bytes : Bytes)
  | pages (pages : List PageId)
  | tuples (tuples : List Tuple)
  deriving DecidableEq

/-- How an operation has ended. An insertion leaves its tuple behind, whether it succeeds or not. -/
structure Outcome where
  result : Except Failure Answer
  tuple : Option Tuple

/-- What comes after a stretch of an operation: another lock request, or the end. -/
inductive Step where
  | ask (operation : Operation)
  | done (outcome : Outcome)

namespace Step

def answer (answer : Answer) : Step :=
  .done { result := .ok answer, tuple := none }

def lock (tx : TxId) (page : PageId) (mode : LockMode) (goal : Goal) : Step :=
  .ask { request := { tx, page, mode }, goal }

end Step

/-- The tuple of an insertion that has not been placed yet. -/
def Goal.inserted? : Goal → Option Tuple
  | .insert insertion .. | .stamp insertion .. => some insertion.tuple
  | _ => none

/-- The heap layout of a table; other tables have no tuples to read. -/
def Table.layout? (table : Table) : Option Layout :=
  match table.kind with
  | .heap layout => some layout
  | .stamps _ => none

/-- The last part of a change that the pool runs. -/
def hold (pooled : Bool) (tx : TxId) (changed : List PageRef) : Action Unit :=
  if pooled then holdDirty tx changed else return

/-- Looks at the next page of a heap table, or appends a page after the last one. -/
def inspectFrom (tx : TxId) (insertion : Insertion) (layout : Layout) (index bound : Nat) :
    Action Step := do
  if index < bound then
    let page := insertion.table.page index
    let held := (← get).locks.table.holds tx page
    return .lock tx page .shared (.insert insertion layout (.inspect index bound held))
  else
    let page ← allocatePage insertion.table
    return .lock tx page .exclusive (.insert insertion layout .append)

/-- Stamps go to page after page of a table, one cell to each. -/
def stampFrom (tx : TxId) (insertion : Insertion) (mode : LockMode) (index : Nat)
    (changed : List PageRef) : List Cell → Action Step
  | [] => do
      hold insertion.pooled tx changed
      return .done { result := .ok .unit, tuple := some insertion.tuple }
  | cell :: rest =>
      return .lock tx (insertion.table.page index) mode (.stamp insertion index cell rest changed)

def Insertion.start (insertion : Insertion) (tx : TxId) : Action Step := do
  match insertion.table.kind with
  | .heap layout => inspectFrom tx insertion layout 0 (← pageCount insertion.table)
  | .stamps mode => stampFrom tx insertion mode 0 [] insertion.tuple.cells

def startDelete (tx : TxId) (table : Table) (tuple : Tuple) (pooled : Bool) : Action Step := do
  match tuple.rid with
  | none => throw (.error (.recordIdMissing tuple))
  | some rid =>
      match table.kind with
      | .heap layout =>
          if rid.page.table ≠ table.id then
            throw (.error (.foreignTuple tuple table.id))
          return .lock tx rid.page .exclusive (.delete layout tuple pooled)
      | .stamps _ => return .lock tx rid.page .exclusive (.unstamp pooled)

def scanFrom (tx : TxId) (table : Table) (layout : Layout) (index bound : Nat)
    (found : List Tuple) : Step :=
  if index < bound then
    .lock tx (table.page index) .shared (.scan table layout index bound found)
  else
    .answer (.tuples found)

/-- Runs a call up to its first lock request. -/
def Call.start : Call → Action Step
  | .acquire tx page mode => return .lock tx page mode .lock
  | .get tx page mode => return .lock tx page mode .page
  | .insert tx id tuple => do
      let table ← getTable id
      Insertion.start { table, tuple, pooled := true } tx
  | .delete tx tuple => do
      match tuple.rid with
      | none => throw (.error (.recordIdMissing tuple))
      | some rid => startDelete tx (← getTable rid.page.table) tuple true
  | .insertInto tx table tuple => Insertion.start { table, tuple, pooled := false } tx
  | .deleteFrom tx table tuple => startDelete tx table tuple false
  | .scan tx table => do
      match table.layout? with
      | none => return .answer (.tuples [])
      | some layout => return scanFrom tx table layout 0 (← pageCount table) []

/-- Runs a step and gives its failure as a value. -/
def observing (step : Action Unit) : Action (Except Failure Unit) := fun pool =>
  match step pool with
  | .ok _ pool => .ok (.ok ()) pool
  | .error failure pool => .ok (.error failure) pool

/-- Puts the tuple of an insertion onto a page. From then on it carries its record id. -/
def Insertion.place (insertion : Insertion) (tx : TxId) (layout : Layout) (ref : PageRef) :
    Action Step := do
  let placed ← onPage ref (layout.insert tx insertion.tuple)
  let result ← observing (hold insertion.pooled tx [ref])
  return .done { result := result.map fun _ => .unit, tuple := some placed }

/-- Goes on with a page whose lock has been granted. -/
def Operation.proceed (operation : Operation) (ref : PageRef) : Action Step := do
  let { tx, page, mode } := operation.request
  match operation.goal with
  | .lock => return .answer .unit
  | .page => return .answer (.page ref)
  | .insert insertion layout (.inspect index bound held) =>
      if 0 < (← lift (layout.freeSlots ((← get).page ref))) then
        return .lock tx page .exclusive (.insert insertion layout .upgrade)
      if !held then
        let _ ← releaseLock tx page
      inspectFrom tx insertion layout (index + 1) bound
  | .insert insertion layout _ => insertion.place tx layout ref
  | .stamp insertion index cell rest changed =>
      onPage ref (Page.write tx 0 [UInt8.ofNat cell.toUInt32.toNat])
      stampFrom tx insertion mode (index + 1) (changed ++ [ref]) rest
  | .delete layout tuple pooled =>
      onPage ref (layout.delete tx tuple)
      hold pooled tx [ref]
      return .answer .unit
  | .unstamp pooled =>
      onPage ref (Page.write tx 0 [0])
      hold pooled tx [ref]
      return .answer .unit
  | .scan table layout index bound found =>
      let tuples ← lift (layout.tuples ((← get).page ref))
      return scanFrom tx table layout (index + 1) bound (found ++ tuples)

end PagePool
