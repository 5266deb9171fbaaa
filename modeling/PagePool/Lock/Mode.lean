import PagePool.PageId

/-!
Lock modes, the permissions that ask for them, and lock requests.
-/

namespace PagePool

abbrev TxId := Nat

/-- What a transaction may do with a page it asks for. -/
inductive Permission where
  | readOnly
  | readWrite
  deriving DecidableEq, Repr

inductive LockMode where
  | shared
  | exclusive
  deriving DecidableEq, Repr

def LockMode.name : LockMode → String
  | .shared => "SLock"
  | .exclusive => "XLock"

def LockMode.letter : LockMode → String
  | .shared => "S"
  | .exclusive => "X"

def Permission.name : Permission → String
  | .readOnly => "ReadOnly"
  | .readWrite => "ReadWrite"

/-- Reading takes a shared lock, writing an exclusive one. -/
def Permission.mode : Permission → LockMode
  | .readOnly => .shared
  | .readWrite => .exclusive

structure Request where
  tx : TxId
  page : PageId
  mode : LockMode
  deriving DecidableEq, Repr

def txLabel (tx : TxId) : String :=
  s!"tx_{tx}"

def Request.describe (request : Request) : String :=
  s!"<tx: {txLabel request.tx}, lock: {request.mode.name}, page_id: {request.page.label}>"

end PagePool
