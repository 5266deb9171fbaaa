import PagePool.Error

/-!
Checked construction of schemas and tuples.
-/

namespace PagePool

def Schema.ofFields (fields : Nat) : Except Failure Schema :=
  if fields = 0 then .error (.fault .noFields) else .ok { fields }

/-- The size of a tuple, provided that the machine can count it. -/
def Schema.checkedSize (schema : Schema) : Except Failure Nat :=
  checkedWord schema.size

/-- The first bytes of a text, as many as a tuple of the schema takes. -/
def Tuple.decode (schema : Schema) (bytes : Bytes) : Except Failure Tuple := do
  let size ← schema.checkedSize
  if size ≤ bytes.length then
    return .ofCells (Cell.decodeAll (bytes.take size))
  else
    throw (.fault .outOfRange)

/-- A tuple of equal cells, provided that the machine can hold them. -/
def Tuple.uniform (value : Cell) (width : Nat) : Except Failure Tuple := do
  return .constant value (← checkedCount width cellSize)

def Tuple.cell (tuple : Tuple) (i : Nat) : Except Failure Cell :=
  match tuple.cells[i]? with
  | some cell => .ok cell
  | none => .error (.fault .outOfRange)

end PagePool
