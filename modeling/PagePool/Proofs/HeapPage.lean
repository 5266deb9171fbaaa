import Mathlib.Data.Bool.Count
import Mathlib.Data.List.Sort
import Mathlib.Logic.Function.Basic
import PagePool.Proofs.Layout

/-!
# A heap page as a map from slots to cells

The map is read off the bytes of the page, bit by bit and byte by byte, and the operations of the
layout are those of the map. They hold for any bytes: nothing here asks that the page was ever
written by an insertion, so that the bits behind the last slot and the bytes of free slots may be
anything.
-/

namespace PagePool

/-- A bit of a byte string, the most significant bit of a byte first. -/
def Bytes.bitAt (bytes : Bytes) (i : Nat) : Bool :=
  (bytes.getD (i / byteWidth) 0).toNat.testBit (7 - i % byteWidth)

/-- The number in the four bytes from an offset on, the least significant byte first, in two's
complement. -/
def Cell.readAt (bytes : Bytes) (offset : Nat) : Cell :=
  let byte i := (bytes.getD (offset + i) 0).toNat
  Int32.ofNat (byte 0 + 256 * (byte 1 + 256 * (byte 2 + 256 * byte 3)))

namespace Layout

/-- The cells in a slot, provided that the page has the slot and its header bit is set. -/
def live (layout : Layout) (bytes : Bytes) (slot : Nat) : Option (List Cell) :=
  if slot < layout.slotCount ∧ bytes.bitAt slot = true then
    some <| (List.range layout.schema.fields).map fun field =>
      Cell.readAt bytes (layout.slotOffset slot + field * cellSize)
  else none

/-- The cells of all slots by ascending slot, as tuples with record ids. -/
def listing (layout : Layout) (page : Page) : List Tuple :=
  (List.range layout.slotCount).filterMap fun slot =>
    (layout.live page.data slot).map fun cells =>
      { cells, rid := some { page := page.id, slot } }

/-- The page has cells in one slot that had none, and all else is as before: the header bits of
other slots and those that belong to no slot, and every byte behind the header and outside the
slot. -/
structure Fills (layout : Layout) (tx : TxId) (slot : Nat) (cells : List Cell)
    (page after : Page) : Prop where
  rewritten : page.Rewritten tx after
  live : layout.live after.data = Function.update (layout.live page.data) slot (some cells)
  bits : ∀ bit < layout.headerSize * byteWidth, bit ≠ slot →
    after.data.bitAt bit = page.data.bitAt bit
  bytes : ∀ i, layout.headerSize ≤ i →
    ¬(layout.slotOffset slot ≤ i ∧ i < layout.slotOffset slot + layout.schema.size) →
      after.data[i]? = page.data[i]?

/-- The page has no cells in one slot that had some, and one bit of the whole page is different. -/
structure Frees (layout : Layout) (tx : TxId) (slot : Nat) (page after : Page) : Prop where
  rewritten : page.Rewritten tx after
  live : layout.live after.data = Function.update (layout.live page.data) slot none
  bits : ∀ bit, bit ≠ slot → after.data.bitAt bit = page.data.bitAt bit

/-- What an insertion does to a page: it puts the cells into the lowest free slot. A failure gives
no tuple back, so the caller keeps the one that was to be inserted. -/
structure Inserts (layout : Layout) (tx : TxId) (tuple : Tuple) (page : Page) : Prop where
  succeeds_iff : (∃ placed after, layout.insert tx tuple page = .ok placed after) ↔
    tuple.width = layout.schema.fields ∧
      ∃ slot < layout.slotCount, layout.live page.data slot = none
  ok : ∀ placed after, layout.insert tx tuple page = .ok placed after →
    ∃ slot < layout.slotCount, layout.live page.data slot = none ∧
      (∀ earlier < slot, (layout.live page.data earlier).isSome) ∧
      placed = { tuple with rid := some { page := page.id, slot } } ∧
      layout.Fills tx slot tuple.cells page after
  error : ∀ failure after, layout.insert tx tuple page = .error failure after →
    after = page ∧ failure = .error (if tuple.width = layout.schema.fields then .pageFull page.id
      else .schemaMismatch tuple layout.schema)

/-- What a deletion does to a page: it frees the slot that the record id names. -/
structure Deletes (layout : Layout) (tx : TxId) (tuple : Tuple) (page : Page) : Prop where
  succeeds_iff : (∃ after, layout.delete tx tuple page = .ok () after) ↔
    ∃ slot, tuple.rid = some { page := page.id, slot } ∧ slot < layout.slotCount ∧
      (layout.live page.data slot).isSome
  ok : ∀ after, layout.delete tx tuple page = .ok () after →
    ∃ slot, tuple.rid = some { page := page.id, slot } ∧ layout.Frees tx slot page after
  error : ∀ failure after, layout.delete tx tuple page = .error failure after →
    after = page ∧ failure = .error (match tuple.rid with
      | none => .recordIdMissing tuple
      | some rid =>
          if rid.page = page.id then .slotEmpty rid.slot rid.page else .otherPage tuple page.id)

theorem ofSchema_eq {schema : Schema} {pageSize : Nat}
    (htuple : schema.size * byteWidth + 1 < wordLimit) (hpage : pageSize * byteWidth < wordLimit) :
    Layout.ofSchema schema pageSize = .ok { schema, pageSize } := by
  have hwidth : 0 < byteWidth := by decide
  have hbits : schema.size * byteWidth < wordLimit := Nat.lt_of_succ_lt htuple
  have hsize : schema.size < wordLimit :=
    Nat.lt_of_le_of_lt (Nat.le_mul_of_pos_right _ hwidth) hbits
  simp only [ofSchema, Schema.checkedSize, checkedWord, if_pos hsize, if_pos hbits, if_pos htuple,
    if_pos hpage, bind, Except.bind, pure, Except.pure]

end Layout

namespace Bytes

variable (bytes : Bytes)

theorem bitAt_eq (i : Nat) : bytes.bitAt i = bytes.bits[i]?.getD false := by
  rw [bitAt, getElem?_bits, List.getD_eq_getElem?_getD]
  cases bytes[i / byteWidth]? with
  | none => simp
  | some byte => rfl

theorem bitAt_eq_true_iff (i : Nat) : bytes.bitAt i = true ↔ bytes.bits[i]? = some true := by
  rw [bitAt_eq]
  cases bytes.bits[i]? <;> simp

theorem bitAt_setBit_of_ne {i slot : Nat} (h : i ≠ slot) (value : Bool) :
    (bytes.setBit slot value).bitAt i = bytes.bitAt i := by
  rw [bitAt_eq, bitAt_eq, getElem?_bits_setBit, if_neg h]

end Bytes

namespace Bytes

variable {bytes : Bytes} {offset : Nat}

theorem drop_eq_getD_cons (h : offset < bytes.length) :
    bytes.drop offset = bytes.getD offset 0 :: bytes.drop (offset + 1) := by
  rw [List.drop_eq_getElem_cons h, List.getD_eq_getElem?_getD, List.getElem?_eq_getElem h,
    Option.getD_some]

end Bytes

namespace Cell

theorem ofBytes_eq (b0 b1 b2 b3 : UInt8) :
    ofBytes b0 b1 b2 b3 =
      Int32.ofNat (b0.toNat + 256 * (b1.toNat + 256 * (b2.toNat + 256 * b3.toNat))) := by
  simp only [ofBytes, Nat.shiftLeft_eq]
  congr 1
  omega

/-- The cells in a stretch of bytes are those at every fourth byte. -/
theorem decodeAll_slice (bytes : Bytes) (count offset : Nat)
    (h : offset + count * cellSize ≤ bytes.length) :
    decodeAll ((bytes.drop offset).take (count * cellSize)) =
      (List.range count).map fun field => readAt bytes (offset + field * cellSize) := by
  induction count generalizing offset with
  | zero => simp [decodeAll]
  | succ count ih =>
      have hcount : (count + 1) * cellSize = count * cellSize + 1 + 1 + 1 + 1 :=
        Nat.succ_mul count cellSize
      rw [hcount] at h ⊢
      have hfirst : decodeAll ((bytes.drop offset).take (count * cellSize + 1 + 1 + 1 + 1)) =
          readAt bytes offset :: decodeAll ((bytes.drop (offset + cellSize)).take
            (count * cellSize)) := by
        rw [Bytes.drop_eq_getD_cons (by omega), List.take_succ_cons,
          Bytes.drop_eq_getD_cons (by omega), List.take_succ_cons,
          Bytes.drop_eq_getD_cons (by omega), List.take_succ_cons,
          Bytes.drop_eq_getD_cons (by omega), List.take_succ_cons, decodeAll, ofBytes_eq]
        rfl
      have hlater : ∀ field, offset + cellSize + field * cellSize =
          offset + (field + 1) * cellSize := fun field => by
        rw [Nat.succ_mul]
        omega
      rw [hfirst, ih (offset + cellSize) (by unfold cellSize at h ⊢; omega),
        List.range_succ_eq_map, List.map_cons, List.map_map, Nat.zero_mul, Nat.add_zero]
      simp only [hlater, Function.comp_def]

end Cell

namespace Layout

section Map

variable {layout : Layout} {page : Page} {slot : Nat}
  (hlength : page.data.length = layout.pageSize)
include hlength

/-- The map that the operations read is the one in the bytes. -/
theorem live_eq_row? : layout.live page.data slot = layout.row? page slot := by
  simp only [live, row?_eq hlength, Bytes.bitAt_eq_true_iff]
  split
  · next hused =>
    have hfits := slotOffset_add_le hused.1
    rw [slotBytes, Schema.size, Cell.decodeAll_slice]
    rwa [hlength]
  · rfl

theorem live_eq : layout.live page.data = layout.row? page :=
  funext fun _ => live_eq_row? hlength

theorem usedSlots_eq : usedSlots (page.data.bits.take layout.slotCount) =
    (List.range layout.slotCount).filter fun slot => (layout.row? page slot).isSome := by
  refine (pairwise_usedSlots _).eq_of_mem_iff (List.pairwise_lt_range.filter _) fun slot => ?_
  rw [mem_usedSlots_iff, List.mem_filter, List.mem_range, isSome_row?_iff hlength]
  exact ⟨fun h => ⟨h.1, h⟩, And.right⟩

theorem filterMap_row? (slots : List Nat) :
    (slots.filterMap fun slot => (layout.row? page slot).map fun cells =>
      ({ cells, rid := some { page := page.id, slot } } : Tuple)) =
        (slots.filter fun slot => (layout.row? page slot).isSome).map (layout.tupleIn page) := by
  induction slots with
  | nil => rfl
  | cons slot rest ih =>
      rw [List.filterMap_cons, List.filter_cons, ih, row?_eq hlength]
      by_cases hused : slot < layout.slotCount ∧ page.data.bits[slot]? = some true
      · rw [if_pos hused]
        rfl
      · rw [if_neg hused]
        rfl

theorem tuples_eq_listing : layout.tuples page = .ok (layout.listing page) := by
  rw [tuples_eq hlength, usedSlots_eq hlength, listing, live_eq hlength, filterMap_row? hlength]

/-- A slot is free or listed. -/
theorem freeSlots_add_length_listing : ∃ free, layout.freeSlots page = .ok free ∧
    free + (layout.listing page).length = layout.slotCount := by
  have hlisting := Except.ok.inj ((tuples_eq_listing hlength).symm.trans (tuples_eq hlength))
  refine ⟨_, freeSlots_eq hlength, ?_⟩
  rw [hlisting, List.length_map, length_usedSlots, List.count_false_add_count_true,
    List.length_take, Nat.min_eq_left (slotCount_le_length_bits hlength)]

end Map

section Changes

variable {layout : Layout} {tx : TxId} {page : Page} {slot : Nat}
  (hlength : page.data.length = layout.pageSize)
include hlength

theorem live_update {after : Page} {cells : Option (List Cell)}
    (hrewritten : page.Rewritten tx after)
    (h : ∀ other, layout.row? after other = if other = slot then cells else layout.row? page other) :
    layout.live after.data = Function.update (layout.live page.data) slot cells := by
  obtain ⟨data, hdata, rfl⟩ := hrewritten
  rw [live_eq hlength, live_eq (hdata.trans hlength)]
  funext other
  rw [h, Function.update_apply]

variable (hslot : slot < layout.slotCount)
include hslot

theorem fills_filled {tuple : Tuple} (hwidth : tuple.width = layout.schema.fields) :
    layout.Fills tx slot tuple.cells page (layout.filled page tx slot tuple.encode) := by
  have hchunk : tuple.encode.length = layout.schema.size := by
    rw [Tuple.length_encode, hwidth]
    rfl
  have hfits := slotOffset_add_le hslot
  have hmarked : (page.data.setBit slot true).length = layout.pageSize := by
    rw [Bytes.length_setBit, hlength]
  have hbyte := @Bytes.getElem?_overwrite (page.data.setBit slot true) tuple.encode
    (layout.slotOffset slot) (by omega)
  rw [hchunk] at hbyte
  have hrewritten : page.Rewritten tx (layout.filled page tx slot tuple.encode) :=
    (rewritten_headed tx page slot true).trans (Page.rewritten_overwritten ..)
  refine ⟨hrewritten, live_update hlength hrewritten fun other => ?_,
    fun bit hbit hne => ?_, fun i hi hout => ?_⟩
  · rw [row?_write hlength hslot hchunk rfl, Tuple.decodeAll_encode]
  · have hheader : bit / byteWidth < layout.headerSize :=
      (Nat.div_lt_iff_lt_mul (by decide)).2 hbit
    have hbefore : ¬(layout.slotOffset slot ≤ bit / byteWidth ∧
        bit / byteWidth < layout.slotOffset slot + layout.schema.size) := by
      unfold slotOffset
      omega
    rw [← Bytes.bitAt_setBit_of_ne page.data hne true]
    simp only [Bytes.bitAt, List.getD_eq_getElem?_getD, filled_eq, Page.withData, hbyte,
      if_neg hbefore]
  · have hmark : (page.data.setBit slot true)[i]? = page.data[i]? :=
      @getElem?_setBit_of_le layout slot page.data true hslot i 0 (by simpa [slotOffset] using hi)
    rw [filled_eq, Page.withData, hbyte, if_neg hout, hmark]

theorem frees_headed : layout.Frees tx slot page (headed page tx slot false) where
  rewritten := rewritten_headed tx page slot false
  live := live_update hlength (rewritten_headed tx page slot false)
    (row?_clear hlength hslot rfl)
  bits _ hne := Bytes.bitAt_setBit_of_ne page.data hne false

end Changes

section Operations

variable {layout : Layout} (tx : TxId) (tuple : Tuple) {page : Page}
  (hlength : page.data.length = layout.pageSize)
include hlength

theorem inserts : layout.Inserts tx tuple page := by
  have hends := @ends_insert_exact layout tx page tuple hlength
  have hlive := live_eq hlength
  refine ⟨⟨?_, ?_⟩, fun placed after hstep => ?_, fun failure after hstep => ?_⟩
  · rintro ⟨placed, after, hstep⟩
    obtain ⟨hwidth, slot, hfirst, -⟩ := hends.of_ok hstep
    exact ⟨hwidth, slot, hfirst.lt, hlive ▸ hfirst.free⟩
  · rintro ⟨hwidth, slot, hslot, hfree⟩
    cases hstep : layout.insert tx tuple page with
    | ok placed after => exact ⟨placed, after, rfl⟩
    | error failure after =>
        obtain ⟨-, ⟨hmisfit, -⟩ | ⟨-, hfull, -⟩⟩ := hends.of_error hstep
        · exact absurd hwidth hmisfit
        · have hused := hfull slot hslot
          rw [← hlive, hfree] at hused
          cases hused
  · obtain ⟨hwidth, slot, hfirst, hplaced, rfl⟩ := hends.of_ok hstep
    exact ⟨slot, hfirst.lt, hlive ▸ hfirst.free, hlive ▸ hfirst.used, hplaced,
      fills_filled hlength hfirst.lt hwidth⟩
  · obtain ⟨hafter, ⟨hmisfit, hfailure⟩ | ⟨hwidth, -, hfailure⟩⟩ := hends.of_error hstep
    · exact ⟨hafter, by rw [if_neg hmisfit, hfailure]⟩
    · exact ⟨hafter, by rw [if_pos hwidth, hfailure]⟩

theorem deletes : layout.Deletes tx tuple page := by
  have hends := @ends_delete_exact layout tx page tuple hlength
  have hlive := live_eq hlength
  refine ⟨⟨?_, ?_⟩, fun after hstep => ?_, fun failure after hstep => ?_⟩
  · rintro ⟨after, hstep⟩
    obtain ⟨⟨_, slot⟩, hrid, rfl, hused, -⟩ := hends.of_ok hstep
    exact ⟨slot, hrid, ((isSome_row?_iff hlength).1 hused).1, hlive ▸ hused⟩
  · rintro ⟨slot, hrid, -, hused⟩
    cases hstep : layout.delete tx tuple page with
    | ok _ after => exact ⟨after, rfl⟩
    | error failure after =>
        obtain ⟨-, ⟨hnone, -⟩ | ⟨rid, hsome, hother⟩⟩ := hends.of_error hstep
        · cases hrid.symm.trans hnone
        · obtain rfl := Option.some.inj (hrid.symm.trans hsome)
          rcases hother with ⟨hne, -⟩ | ⟨-, hfree, -⟩
          · exact absurd rfl hne
          · rw [hlive, hfree] at hused
            cases hused
  · obtain ⟨⟨_, slot⟩, hrid, rfl, hused, rfl⟩ := hends.of_ok hstep
    exact ⟨slot, hrid, frees_headed hlength ((isSome_row?_iff hlength).1 hused).1⟩
  · obtain ⟨hafter, ⟨hnone, hfailure⟩ | ⟨rid, hrid, hother⟩⟩ := hends.of_error hstep
    · exact ⟨hafter, by rw [hnone, hfailure]⟩
    · rcases hother with ⟨hne, hfailure⟩ | ⟨hpage, -, hfailure⟩
      · exact ⟨hafter, by simp only [hrid, if_neg hne, hfailure]⟩
      · exact ⟨hafter, by simp only [hrid, if_pos hpage, hfailure]⟩

end Operations

/-- Over pages of any bytes, the operations of a heap page are those of the map from its slots to
their cells. -/
theorem acts_as_map {schema : Schema} {pageSize : Nat}
    (htuple : schema.size * byteWidth + 1 < wordLimit) (hpage : pageSize * byteWidth < wordLimit)
    {page : Page} (hlength : page.data.length = pageSize) (tx : TxId) (tuple : Tuple) :
    ∃ layout, Layout.ofSchema schema pageSize = .ok layout ∧ layout.schema = schema ∧
      layout.pageSize = pageSize ∧
      (∀ slot, layout.isSlotUsed page slot = .ok (layout.live page.data slot).isSome) ∧
      layout.tuples page = .ok (layout.listing page) ∧
      (∃ free, layout.freeSlots page = .ok free ∧
        free + (layout.listing page).length = layout.slotCount) ∧
      layout.Inserts tx tuple page ∧ layout.Deletes tx tuple page := by
  refine ⟨_, ofSchema_eq htuple hpage, rfl, rfl, fun slot => ?_, tuples_eq_listing hlength,
    freeSlots_add_length_listing hlength, inserts tx tuple hlength, deletes tx tuple hlength⟩
  rw [live_eq_row? hlength, isSlotUsed_eq_isSome hlength]

/-- A page that no insertion has written: header bits behind the last of its two slots are set, and
the free slot in front has bytes in it. -/
def corrupted : Page where
  id := { table := 0, index := 0 }
  data := [0x7f, 9, 9, 9, 9, 0xfe, 0xff, 0xff, 0xff]
  dirty := some 3
  beforeImage := none
  stolen := true

/-- The tuple in the second slot. -/
def corruptedTuple : Tuple where
  cells := [-2]
  rid := some { page := corrupted.id, slot := 1 }

theorem acts_as_map_corrupted :
    (Schema.mk 1).size * byteWidth + 1 < wordLimit ∧ 9 * byteWidth < wordLimit ∧
      corrupted.data.length = 9 ∧ ∃ layout, Layout.ofSchema ⟨1⟩ 9 = .ok layout ∧
        layout.Inserts 1 corruptedTuple corrupted ∧ layout.Deletes 1 corruptedTuple corrupted :=
  ⟨by decide, by decide, rfl,
    let ⟨layout, hlayout, _, _, _, _, _, hinserts, hdeletes⟩ :=
      acts_as_map (by decide) (by decide) rfl 1 corruptedTuple
    ⟨layout, hlayout, hinserts, hdeletes⟩⟩

example : (Layout.mk ⟨1⟩ 9).listing corrupted = [corruptedTuple] := by decide

end Layout

end PagePool
