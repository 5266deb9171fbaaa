import PagePool.Bits

/-!
# Bits of a byte string

Setting a bit sets this bit and leaves all others as they are.
-/

namespace PagePool

theorem length_byteBits (byte : UInt8) : (byteBits byte).length = byteWidth := by
  simp [byteBits]

theorem getElem?_byteBits {i : Nat} (h : i < byteWidth) (byte : UInt8) :
    (byteBits byte)[i]? = some (byte.toNat.testBit (7 - i)) := by
  simp [byteBits, h]

theorem testBit_mask {k : Nat} (h : k < 8) (j : Nat) :
    (UInt8.ofNat (1 <<< k)).toNat.testBit j = decide (k = j) := by
  have hmask : (UInt8.ofNat (1 <<< k)).toNat = 2 ^ k := by
    rw [Nat.one_shiftLeft, UInt8.toNat_ofNat_of_lt']
    exact Nat.pow_lt_pow_right (by decide) h
  rw [hmask, Nat.testBit_two_pow]

theorem testBit_not (byte : UInt8) (j : Nat) :
    (~~~byte).toNat.testBit j = (decide (j < 8) && !byte.toNat.testBit j) := by
  have hsize : UInt8.size = 2 ^ 8 := rfl
  have hnot : (~~~byte).toNat = 2 ^ 8 - (byte.toNat + 1) := by
    rw [UInt8.toNat_not, Nat.sub_sub, Nat.add_comm 1, hsize]
  rw [hnot, Nat.testBit_two_pow_sub_succ byte.toNat_lt]

theorem testBit_setByteBit {i j : Nat} (hi : i < byteWidth) (hj : j < byteWidth) (value : Bool)
    (byte : UInt8) :
    (setByteBit i value byte).toNat.testBit (7 - j) =
      if j = i then value else byte.toNat.testBit (7 - j) := by
  have hwidth : byteWidth = 8 := rfl
  have hsame : 7 - i = 7 - j ↔ j = i := by omega
  have hmask := testBit_mask (k := 7 - i) (by omega) (7 - j)
  have hin : 7 - j < 8 := by omega
  unfold setByteBit
  cases value with
  | true =>
      rw [if_pos rfl, UInt8.toNat_or, Nat.testBit_or, hmask]
      by_cases hij : j = i <;> simp [hsame, hij]
  | false =>
      rw [if_neg Bool.false_ne_true, UInt8.toNat_and, Nat.testBit_and, testBit_not, hmask]
      by_cases hij : j = i <;> simp [hsame, hij, hin]

namespace Bytes

variable (bytes : Bytes)

theorem length_bits : bytes.bits.length = bytes.length * byteWidth := by
  induction bytes with
  | nil => rfl
  | cons byte rest ih =>
      have hrest : (List.flatMap byteBits rest).length = rest.length * byteWidth := ih
      rw [bits, List.flatMap_cons, List.length_append, hrest, length_byteBits, List.length_cons,
        Nat.succ_mul, Nat.add_comm]

theorem getElem?_bits (i : Nat) :
    bytes.bits[i]? = bytes[i / byteWidth]?.map fun byte =>
      byte.toNat.testBit (7 - i % byteWidth) := by
  have hpos : 0 < byteWidth := by decide
  induction bytes generalizing i with
  | nil => rfl
  | cons byte rest ih =>
      have hcons : bits (byte :: rest) = byteBits byte ++ bits rest := rfl
      rw [hcons]
      rcases Nat.lt_or_ge i byteWidth with hfirst | hlater
      · rw [List.getElem?_append_left (by rwa [length_byteBits]), getElem?_byteBits hfirst,
          Nat.div_eq_of_lt hfirst, Nat.mod_eq_of_lt hfirst]
        rfl
      · have hdiv : i / byteWidth = (i - byteWidth) / byteWidth + 1 := by
          rw [Nat.div_eq_sub_div hpos hlater]
        have hmod : i % byteWidth = (i - byteWidth) % byteWidth := Nat.mod_eq_sub_mod hlater
        rw [List.getElem?_append_right (by rwa [length_byteBits]), length_byteBits, ih, hdiv, hmod,
          List.getElem?_cons_succ]

theorem getElem?_bits_setBit (i j : Nat) (value : Bool) :
    (bytes.setBit i value).bits[j]? =
      if j = i then bytes.bits[j]?.map fun _ => value else bytes.bits[j]? := by
  have hpos : 0 < byteWidth := by decide
  rw [getElem?_bits, getElem?_bits, setBit, List.getElem?_modify]
  by_cases hbyte : i / byteWidth = j / byteWidth
  · have hsame : j % byteWidth = i % byteWidth ↔ j = i := by
      refine ⟨fun hmod => ?_, fun h => h ▸ rfl⟩
      rw [← Nat.div_add_mod j byteWidth, ← hbyte, hmod, Nat.div_add_mod]
    cases hget : bytes[j / byteWidth]? with
    | none => simp
    | some byte =>
        have hbit := testBit_setByteBit (Nat.mod_lt i hpos) (Nat.mod_lt j hpos) value byte
        simp only [hbyte, if_true, Option.map_eq_map, Option.map_some, hbit, hsame]
        split <;> rfl
  · have hne : j ≠ i := fun h => hbyte (h ▸ rfl)
    simp only [if_neg hbyte, if_neg hne, id_map']

theorem bits_take (count : Nat) :
    bits (bytes.take count) = bytes.bits.take (count * byteWidth) := by
  refine List.ext_getElem? fun i => ?_
  rw [getElem?_bits, List.getElem?_take, List.getElem?_take, getElem?_bits]
  simp only [← Nat.div_lt_iff_lt_mul (show 0 < byteWidth by decide)]
  split <;> rfl

end Bytes

end PagePool
