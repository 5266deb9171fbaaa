import PagePool.PageId
import PagePool.Text.Hex

/-!
Tuples of 32-bit cells, their schema, and the bytes they are stored as.
-/

namespace PagePool

abbrev Cell := Int32

/-- Every field of a table is one cell. -/
structure Schema where
  fields : Nat
  deriving DecidableEq, Repr, Inhabited

def cellSize : Nat := 4

/-- The bytes of a tuple. -/
def Schema.size (schema : Schema) : Nat :=
  schema.fields * cellSize

def Schema.describe (schema : Schema) : String :=
  "Schema \x7b fields: " ++ toString schema.fields ++ " \x7d"

/-- The place of a tuple: a slot of a page. -/
structure RecordId where
  page : PageId
  slot : Nat
  deriving DecidableEq, Repr, Inhabited

structure Tuple where
  cells : List Cell
  rid : Option RecordId
  deriving DecidableEq, Inhabited

namespace Cell

/-- The four bytes of a cell, the least significant one first. -/
def encode (cell : Cell) : Bytes :=
  let bits := cell.toUInt32.toNat
  [UInt8.ofNat bits, UInt8.ofNat (bits >>> 8), UInt8.ofNat (bits >>> 16),
    UInt8.ofNat (bits >>> 24)]

def ofBytes (b0 b1 b2 b3 : UInt8) : Cell :=
  Int32.ofNat
    (b0.toNat + (b1.toNat <<< 8) + (b2.toNat <<< 16) + (b3.toNat <<< 24))

/-- Reads cell after cell; bytes left over at the end belong to none. -/
def decodeAll : Bytes → List Cell
  | b0 :: b1 :: b2 :: b3 :: rest => ofBytes b0 b1 b2 b3 :: decodeAll rest
  | _ => []

end Cell

namespace Tuple

def ofCells (cells : List Cell) : Tuple :=
  { cells, rid := none }

/-- A tuple of equal cells. -/
def constant (value : Cell) (width : Nat) : Tuple :=
  ofCells (List.replicate width value)

def encode (tuple : Tuple) : Bytes :=
  tuple.cells.flatMap Cell.encode

def width (tuple : Tuple) : Nat :=
  tuple.cells.length

def describeCells (tuple : Tuple) : String :=
  " ".intercalate (tuple.cells.map fun cell => toString cell.toInt)

/-- The cells between angle brackets, and the place of the tuple if it has one. -/
def describe (tuple : Tuple) : String :=
  let cells := "<" ++ tuple.describeCells ++ ">"
  match tuple.rid with
  | some rid => s!"{cells} @ {rid.page.label}#{rid.slot}"
  | none => cells

end Tuple

end PagePool
