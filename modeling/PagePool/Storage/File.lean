import PagePool.Page

/-!
Files as byte arrays that grow when they are written behind their end. All bytes behind the end are
zero, so a gap that a write leaves before itself is filled with zeros.
-/

namespace PagePool

structure File where
  length : Nat
  byte : Nat → UInt8
  byte_eq_zero : ∀ i, length ≤ i → byte i = 0

namespace File

def empty : File where
  length := 0
  byte _ := 0
  byte_eq_zero _ _ := rfl

def ofBytes (bytes : Bytes) : File :=
  let contents := bytes.toArray
  { length := contents.size
    byte := fun i => contents.getD i 0
    byte_eq_zero := fun i behind => by
      rw [Array.getD_eq_getD_getElem?, Array.getElem?_eq_none behind]
      rfl }

def read (file : File) (offset size : Nat) : Bytes :=
  (List.range size).map fun i => file.byte (offset + i)

/-- Puts bytes at an offset; no bytes leave the file as it is, wherever the offset lies. -/
def write (file : File) (offset : Nat) (bytes : Bytes) : File :=
  if bytes = [] then file
  else
    let chunk := bytes.toArray
    let stop := offset + chunk.size
    { length := max file.length stop
      byte := fun i =>
        if offset ≤ i ∧ i < stop then chunk.getD (i - offset) 0 else file.byte i
      byte_eq_zero := by
        intro i behind
        have outside : ¬(offset ≤ i ∧ i < stop) := by omega
        simp only [outside, if_false]
        exact file.byte_eq_zero i (by omega) }

/-- The number of whole pages; bytes behind the last of them belong to none. -/
def pageCount (file : File) (pageSize : Nat) : Except Failure Nat :=
  if pageSize = 0 then .error (.fault .divisionByZero) else .ok (file.length / pageSize)

@[simp]
theorem length_read (file : File) (offset size : Nat) : (file.read offset size).length = size := by
  simp [read]

theorem byte_write (file : File) (offset i : Nat) (bytes : Bytes) :
    (file.write offset bytes).byte i =
      if offset ≤ i ∧ i < offset + bytes.length then bytes.getD (i - offset) 0
      else file.byte i := by
  unfold write
  split
  · next h =>
    have outside : ¬(offset ≤ i ∧ i < offset + bytes.length) := by
      simp only [h, List.length_nil]
      omega
    rw [if_neg outside]
  · simp [List.getD_eq_getElem?_getD, Array.getD_eq_getD_getElem?]

/-- The whole file in pieces of one page; the last piece may be shorter. -/
def pieces (file : File) (pageSize : Nat) : Except Failure (List Bytes) := do
  let whole ← file.pageCount pageSize
  let rest := file.length % pageSize
  let piece := fun i => file.read (i * pageSize) pageSize
  return (List.range whole).map piece ++
    if rest = 0 then [] else [file.read (whole * pageSize) rest]

end File

end PagePool
