import PagePool.Error

/-!
Pages as the pool holds them: bytes, the transaction that dirtied them, and the before-image that
an abort puts back.
-/

namespace PagePool

structure Page where
  id : PageId
  data : Bytes
  dirty : Option TxId
  /-- The bytes from before the first write of the transaction that is writing the page. -/
  beforeImage : Option Bytes
  /-- The page went to storage with bytes that are not committed. -/
  stolen : Bool
  deriving DecidableEq, Inhabited

namespace Bytes

def zeros (size : Nat) : Bytes :=
  List.replicate size 0

/-- A stretch of the bytes; it must lie within them. -/
def slice (bytes : Bytes) (offset size : Nat) : Except Failure Bytes :=
  if offset + size ≤ bytes.length then .ok ((bytes.drop offset).take size)
  else .error (.fault .outOfRange)

/-- Puts a chunk over the bytes from an offset on; it must lie within them. -/
def splice (bytes : Bytes) (offset : Nat) (chunk : Bytes) : Except Failure Bytes :=
  if offset + chunk.length ≤ bytes.length then
    .ok (bytes.take offset ++ (chunk ++ bytes.drop (offset + chunk.length)))
  else
    .error (.fault .outOfRange)

end Bytes

/-- A computation without a state of its own, as a step of one that has a state. -/
def lift {State Result : Type} (result : Except Failure Result) : EStateM Failure State Result :=
  fun state =>
    match result with
    | .ok value => .ok value state
    | .error failure => .error failure state

namespace Page

/-- A clean page as it comes from storage. -/
def load (id : PageId) (data : Bytes) : Page :=
  { id, data, dirty := none, beforeImage := none, stolen := false }

/-- The number of bytes of a new page. -/
def newLength (length : Nat) : Except Failure Nat :=
  checkedCount length 1

/-- Bytes with zeros behind them up to the length of a page. Bytes that are longer than a page stay
as they are. -/
def fill (pageSize : Nat) (bytes : Bytes) : Except Failure Bytes := do
  let length ← newLength pageSize
  return bytes ++ Bytes.zeros (length - bytes.length)

/-- Pages of any other length than the page size are a fault. -/
def ofBytes (pageSize : Nat) (id : PageId) (data : Bytes) : Except Failure Page :=
  if data.length = pageSize then .ok (load id data)
  else .error (.fault (.pageLength id data.length pageSize))

/-- A page of as many zeros as are asked for; they have to be as many as a page has bytes. -/
def ofZeros (pageSize : Nat) (id : PageId) (count : Nat) : Except Failure Page := do
  let length ← newLength count
  if length = pageSize then return load id (Bytes.zeros length)
  else throw (.fault (.pageLength id length pageSize))

/-- The page on behalf of a writer: its before-image is taken, unless there is one, and it is
dirty. -/
def touch (page : Page) (tx : TxId) : Page :=
  { page with
    beforeImage := some (page.beforeImage.getD page.data)
    dirty := some tx }

def withData (page : Page) (data : Bytes) : Page :=
  { page with data }

def mark (page : Page) (tx : TxId) (dirty : Bool) : Page :=
  { page with dirty := if dirty then some tx else none }

/-- The bytes of the page are in storage now. -/
def flushed (page : Page) : Page :=
  { page with
    dirty := none
    stolen := page.stolen || page.beforeImage.isSome }

def clearBeforeImage (page : Page) : Page :=
  { page with beforeImage := none, stolen := false }

/-- The page with its before-image back in place, if it has one. -/
def restored? (page : Page) : Option Page :=
  page.beforeImage.map fun image =>
    { page with data := image, dirty := none, beforeImage := none }

/-- Writes a chunk on behalf of a transaction. -/
def write (tx : TxId) (offset : Nat) (chunk : Bytes) : EStateM Failure Page Unit := do
  modify (·.touch tx)
  let page ← get
  set (page.withData (← lift (Bytes.splice page.data offset chunk)))

def describeDirty : Option TxId → String
  | some tx => s!"Some({tx})"
  | none => "None"

def headLength : Nat := 16

/-- A short view of a page with the first of its bytes. -/
def describe (page : Page) : String :=
  s!"Page \x7b pid: {page.id.label}, dirty: {describeDirty page.dirty}, " ++
    s!"has_before_image: {page.beforeImage.isSome}, " ++
    s!"head: {Text.Hex.encode (page.data.take headLength)} \x7d"

end Page

end PagePool
