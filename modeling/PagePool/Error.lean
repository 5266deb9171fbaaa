import PagePool.Lock.Mode
import PagePool.Text.Quoted
import PagePool.Tuple

/-!
What can go wrong: errors that a caller gets back, faults that end a run, and their wording.
-/

namespace PagePool

inductive ErrorKind where
  | deadlock
  | resourceExhausted
  | io
  | notFound
  | storage
  deriving DecidableEq, Repr

def ErrorKind.name : ErrorKind → String
  | .deadlock => "Deadlock"
  | .resourceExhausted => "ResourceExhausted"
  | .io => "Io"
  | .notFound => "NotFound"
  | .storage => "Storage"

/-- An error as its reader sees it. -/
structure Report where
  kind : ErrorKind
  details : String
  deriving DecidableEq, Repr

namespace Report

def display (report : Report) : String :=
  s!"{report.kind.name}: {report.details}"

def debug (report : Report) : String :=
  "DbError \x7b kind: " ++ report.kind.name ++ ", details: " ++ Text.quoted report.details ++
    " \x7d"

/-- A deadlock leaves its transaction no way but to abort. -/
def abortsTransaction (report : Report) : Bool :=
  report.kind = .deadlock

end Report

inductive IoCause where
  | noSuchFile
  | notADirectory
  | isADirectory
  | noSpace
  | nameTooLong
  | zeroInName
  | readFailed
  | writeFailed
  deriving DecidableEq, Repr

def IoCause.message : IoCause → String
  | .noSuchFile => "No such file or directory (os error 2)"
  | .notADirectory => "Not a directory (os error 20)"
  | .isADirectory => "Is a directory (os error 21)"
  | .noSpace => "No space left on device (os error 28)"
  | .nameTooLong => "File name too long (os error 36)"
  | .zeroInName => "file name contained an unexpected NUL byte"
  | .readFailed => "read failed"
  | .writeFailed => "write failed"

/-- Why an operation is refused. -/
inductive Error where
  | deadlock (request : Request) (blockers chain : List TxId)
  | lockTimeout (retries : Nat) (request : Request) (blockers : List TxId)
  | noVictim (resident : Nat)
  | io (cause : IoCause)
  | tableMissing (table : UInt32)
  | pageMissing (page : PageId)
  | beyondEnd (page : PageId) (table : UInt32)
  | tableTaken (table : UInt32)
  | schemaMismatch (tuple : Tuple) (schema : Schema)
  | pageFull (page : PageId)
  | recordIdMissing (tuple : Tuple)
  | foreignTuple (tuple : Tuple) (table : UInt32)
  | otherPage (tuple : Tuple) (page : PageId)
  | slotEmpty (slot : Nat) (page : PageId)
  deriving DecidableEq

namespace Error

def kind : Error → ErrorKind
  | .deadlock .. | .lockTimeout .. => .deadlock
  | .noVictim .. => .resourceExhausted
  | .io .. => .io
  | .tableMissing .. | .pageMissing .. | .beyondEnd .. => .notFound
  | .tableTaken .. | .schemaMismatch .. | .pageFull .. | .recordIdMissing .. | .foreignTuple ..
  | .otherPage .. | .slotEmpty .. => .storage

def describeTxs (txs : List TxId) : String :=
  ", ".intercalate (txs.map toString)

/-- The blockers of a request, in ascending order. -/
def describeBlockers (blockers : List TxId) : String :=
  "\x7b" ++ describeTxs (blockers.mergeSort fun left right => decide (left ≤ right)) ++ "\x7d"

def details : Error → String
  | .deadlock request blockers chain =>
      s!"deadlock detected, request: {request.describe}, blocked by: " ++
        s!"{describeBlockers blockers}, chain: [{describeTxs chain}]"
  | .lockTimeout retries request blockers =>
      s!"acquire lock timeout after {retries} retries, request: {request.describe}, " ++
        s!"blocked by: {describeBlockers blockers}"
  | .noVictim resident => s!"all {resident} pages are dirty or pinned, no one to evict"
  | .io cause => cause.message
  | .tableMissing table => s!"table {table} not found"
  | .pageMissing page => s!"{page.label} doesn't exist"
  | .beyondEnd page table => s!"{page.label} is beyond the end of table {table}"
  | .tableTaken table => s!"table id {table} is already registered"
  | .schemaMismatch tuple schema =>
      s!"tuple {tuple.describe} doesn't match schema {schema.describe}"
  | .pageFull page => s!"no empty slot in page {page.label}"
  | .recordIdMissing tuple => s!"tuple {tuple.describe} has no record id"
  | .foreignTuple tuple table => s!"tuple {tuple.describe} is not a member of table {table}"
  | .otherPage tuple page => s!"tuple {tuple.describe} is not on page {page.label}"
  | .slotEmpty slot page => s!"slot {slot} of page {page.label} is already empty"

def report (error : Error) : Report :=
  { kind := error.kind, details := error.details }

end Error

/-- A breach of what an operation demands of its caller or of the machine; no operation goes on
after it. -/
inductive Fault where
  | outOfRange
  | divisionByZero
  | overflow
  | zeroCapacity
  | noFields
  | pageLength (page : PageId) (actual expected : Nat)
  | unlockedChange (tx : TxId) (page : PageId)
  deriving DecidableEq, Repr

/-- Faults of the pool's own rules say what was broken, those of the machine are mute. -/
def Fault.message? : Fault → Option String
  | .outOfRange | .divisionByZero | .overflow => none
  | .zeroCapacity => some "page cache capacity must be positive"
  | .noFields => some "a schema needs at least one field"
  | .pageLength page actual expected =>
      some s!"page {page.label} has {actual} bytes, page size is {expected}"
  | .unlockedChange tx page =>
      some s!"{txLabel tx} modified {page.label} without holding its X-Lock"

inductive Failure where
  | error (error : Error)
  | fault (fault : Fault)
  deriving DecidableEq

/-- The range of the machine's unsigned numbers. -/
def wordLimit : Nat := 1 <<< 64

/-- A product or sum that leaves the machine's range is a fault. -/
def checkedWord (value : Nat) : Except Failure Nat :=
  if value < wordLimit then .ok value else .error (.fault .overflow)

/-- The machine gives out fewer bytes than this at once. -/
def allotment : Nat := 1 <<< 63

/-- A number of items of the same size, provided that the machine can hold them together. -/
def checkedCount (count size : Nat) : Except Failure Nat :=
  if count * size < allotment then .ok count else .error (.fault .overflow)

end PagePool
