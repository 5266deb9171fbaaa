import PagePool.Bits
import PagePool.Page
import PagePool.Schema

/-!
The layout of a heap page: a header with one bit for every slot, set if the slot is occupied, and
the slots behind it, each with room for one tuple.
-/

namespace PagePool

structure Layout where
  schema : Schema
  pageSize : Nat
  deriving DecidableEq, Repr, Inhabited

namespace Layout

/-- A tuple takes the bits of its cells and one bit of the header. -/
def tupleBits (layout : Layout) : Nat :=
  layout.schema.size * byteWidth + 1

def slotCount (layout : Layout) : Nat :=
  layout.pageSize * byteWidth / layout.tupleBits

/-- The header takes whole bytes. -/
def headerSize (layout : Layout) : Nat :=
  (layout.slotCount + 7) / byteWidth

def slotOffset (layout : Layout) (slot : Nat) : Nat :=
  layout.headerSize + slot * layout.schema.size

/-- The layout of a schema over pages of a size, provided that the machine can count their bits. -/
def ofSchema (schema : Schema) (pageSize : Nat) : Except Failure Layout := do
  let size ← schema.checkedSize
  let bits ← checkedWord (size * byteWidth)
  let _ ← checkedWord (bits + 1)
  let _ ← checkedWord (pageSize * byteWidth)
  return { schema, pageSize }

/-- The header bits of all slots, in the order of the slots. -/
def occupancy (layout : Layout) (page : Page) : Except Failure (List Bool) := do
  let header ← Bytes.slice page.data 0 layout.headerSize
  let bits := Bytes.bits header
  if layout.slotCount ≤ bits.length then
    return bits.take layout.slotCount
  else
    throw (.fault .outOfRange)

/-- No slot is used beyond the last one of the page. -/
def isSlotUsed (layout : Layout) (page : Page) (slot : Nat) : Except Failure Bool := do
  if slot < layout.slotCount then
    return (← layout.occupancy page).getD slot false
  else
    return false

def freeSlots (layout : Layout) (page : Page) : Except Failure Nat := do
  return (← layout.occupancy page).count false

/-- The slots with a set bit, in ascending order. -/
def usedSlots (occupancy : List Bool) : List Nat :=
  (occupancy.zipIdx.filter Prod.fst).map Prod.snd

def tupleAt (layout : Layout) (page : Page) (slot : Nat) : Except Failure Tuple := do
  let bytes ← Bytes.slice page.data (layout.slotOffset slot) layout.schema.size
  return { cells := Cell.decodeAll bytes, rid := some { page := page.id, slot } }

/-- The tuples of a page by ascending slot, each with its record id. -/
def tuples (layout : Layout) (page : Page) : Except Failure (List Tuple) := do
  (usedSlots (← layout.occupancy page)).mapM (layout.tupleAt page)

/-- Sets the header bit of a slot on behalf of a transaction. -/
def setHeader (tx : TxId) (slot : Nat) (used : Bool) : EStateM Failure Page Unit := do
  modify (·.touch tx)
  modify fun page => page.withData (Bytes.setBit page.data slot used)

/-- Puts a tuple into the first free slot and returns it with its record id. -/
def insert (layout : Layout) (tx : TxId) (tuple : Tuple) : EStateM Failure Page Tuple := do
  if tuple.width ≠ layout.schema.fields then
    throw (.error (.schemaMismatch tuple layout.schema))
  let page ← get
  match (← lift (layout.occupancy page)).idxOf? false with
  | none => throw (.error (.pageFull page.id))
  | some slot =>
      setHeader tx slot true
      Page.write tx (layout.slotOffset slot) tuple.encode
      return { tuple with rid := some { page := page.id, slot } }

/-- Frees the slot that a tuple's record id names. -/
def delete (layout : Layout) (tx : TxId) (tuple : Tuple) : EStateM Failure Page Unit := do
  let page ← get
  match tuple.rid with
  | none => throw (.error (.recordIdMissing tuple))
  | some rid =>
      if rid.page ≠ page.id then
        throw (.error (.otherPage tuple page.id))
      if ← lift (layout.isSlotUsed page rid.slot) then
        setHeader tx rid.slot false
      else
        throw (.error (.slotEmpty rid.slot rid.page))

end Layout

end PagePool
