import PagePool.Tuple

/-!
# Tuples as bytes

The cells of a tuple are read back from its bytes.
-/

namespace PagePool

namespace Cell

theorem ofNat_toNat (cell : Cell) : Int32.ofNat cell.toUInt32.toNat = cell := by
  cases cell with
  | ofUInt32 bits => simp [Int32.ofNat]

theorem decodeAll_encode (cell : Cell) (rest : Bytes) :
    decodeAll (cell.encode ++ rest) = cell :: decodeAll rest := by
  have hlt : cell.toUInt32.toNat < 2 ^ 32 := cell.toUInt32.toNat_lt
  have hbytes : ofBytes (UInt8.ofNat cell.toUInt32.toNat)
      (UInt8.ofNat (cell.toUInt32.toNat >>> 8)) (UInt8.ofNat (cell.toUInt32.toNat >>> 16))
      (UInt8.ofNat (cell.toUInt32.toNat >>> 24)) = cell := by
    refine Eq.trans ?_ cell.ofNat_toNat
    simp only [ofBytes, UInt8.toNat_ofNat', Nat.shiftRight_eq_div_pow, Nat.shiftLeft_eq]
    congr 1
    omega
  exact congrArg (· :: decodeAll rest) hbytes

theorem length_encode (cell : Cell) : cell.encode.length = cellSize := rfl

end Cell

namespace Tuple

variable (tuple : Tuple)

theorem length_encode : tuple.encode.length = tuple.width * cellSize := by
  obtain ⟨cells, rid⟩ := tuple
  induction cells with
  | nil => rfl
  | cons cell rest ih =>
      have hrest : (List.flatMap Cell.encode rest).length = rest.length * cellSize := ih
      simp only [encode, width, List.flatMap_cons, List.length_append, hrest, Cell.length_encode,
        List.length_cons, Nat.succ_mul, Nat.add_comm]

/-- Every cell survives the encoding. -/
theorem decodeAll_encode : Cell.decodeAll tuple.encode = tuple.cells := by
  obtain ⟨cells, rid⟩ := tuple
  induction cells with
  | nil => rfl
  | cons cell rest ih => exact (Cell.decodeAll_encode cell _).trans (congrArg (cell :: ·) ih)

end Tuple

end PagePool
