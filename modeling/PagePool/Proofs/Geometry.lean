import Mathlib.Algebra.BigOperators.Group.Finset.Basic
import Mathlib.Data.Fintype.BigOperators
import Mathlib.Order.Interval.Finset.Nat
import PagePool.Proofs.HeapPage

/-!
# Where the slots of a page lie

A page has room for its header and all of its slots, and for no slot more, wherever one would put
them. The count comes from bits, but the header takes whole bytes: rounding it up costs less than
the bits that the slots leave over. So whatever an operation reads or writes is on the page.
-/

namespace PagePool

namespace Layout

/-- The whole bytes that one bit for every slot takes. -/
def headerBytes (slots : Nat) : Nat :=
  (slots + 7) / byteWidth

/-- A header and a number of slots, each with a place on a page. No byte belongs to two of them. -/
structure Arrangement (pageSize slotSize slots : Nat) where
  header : Nat
  slot : Fin slots → Nat
  header_inside : header + headerBytes slots ≤ pageSize
  slot_inside : ∀ i, slot i + slotSize ≤ pageSize
  header_apart : ∀ i, header + headerBytes slots ≤ slot i ∨ slot i + slotSize ≤ header
  slot_apart : ∀ i j, i ≠ j → slot i + slotSize ≤ slot j ∨ slot j + slotSize ≤ slot i

/-- The numbers that a layout is computed from fit into the machine's words. -/
structure Countable (layout : Layout) : Prop where
  rounded : layout.slotCount + 7 < wordLimit
  stops : ∀ slot < layout.slotCount, layout.slotOffset slot + layout.schema.size < wordLimit

/-- No operation on a page looks for a bit or a byte that is not there. -/
structure InRange (layout : Layout) (page : Page) : Prop where
  bit : ∀ slot < layout.slotCount, slot / byteWidth < layout.headerSize
  header : layout.headerSize ≤ page.data.length
  isSlotUsed : ∀ slot, ∃ used, layout.isSlotUsed page slot = .ok used
  freeSlots : ∃ free, layout.freeSlots page = .ok free
  tuples : ∃ tuples, layout.tuples page = .ok tuples
  insert : ∀ tx tuple fault after, layout.insert tx tuple page ≠ .error (.fault fault) after
  delete : ∀ tx tuple fault after, layout.delete tx tuple page ≠ .error (.fault fault) after

section Bits

variable {slots fewer bytes : Nat}

theorem headerBytes_le_iff : headerBytes slots ≤ bytes ↔ slots ≤ bytes * byteWidth := by
  unfold headerBytes byteWidth
  omega

theorem headerBytes_mono (h : fewer ≤ slots) : headerBytes fewer ≤ headerBytes slots :=
  headerBytes_le_iff.2 (Nat.le_trans h (headerBytes_le_iff.1 (Nat.le_refl _)))

end Bits

namespace Arrangement

variable {pageSize slotSize slots fewer : Nat}

/-- The bytes of a slot. -/
def slotRange (arrangement : Arrangement pageSize slotSize slots) (i : Fin slots) : Finset Nat :=
  Finset.Ico (arrangement.slot i) (arrangement.slot i + slotSize)

def headerRange (arrangement : Arrangement pageSize slotSize slots) : Finset Nat :=
  Finset.Ico arrangement.header (arrangement.header + headerBytes slots)

section Ranges

variable (arrangement : Arrangement pageSize slotSize slots)

theorem disjoint_slotRange {i j : Fin slots} (h : i ≠ j) :
    Disjoint (arrangement.slotRange i) (arrangement.slotRange j) := by
  rw [Finset.disjoint_left]
  intro byte hi hj
  simp only [slotRange, Finset.mem_Ico] at hi hj
  have hapart := arrangement.slot_apart i j h
  omega

theorem disjoint_headerRange (i : Fin slots) :
    Disjoint arrangement.headerRange (arrangement.slotRange i) := by
  rw [Finset.disjoint_left]
  intro byte hheader hslot
  simp only [headerRange, slotRange, Finset.mem_Ico] at hheader hslot
  have hapart := arrangement.header_apart i
  omega

theorem card_slots : (Finset.univ.biUnion arrangement.slotRange).card = slots * slotSize := by
  rw [Finset.card_biUnion fun i _ j _ h => arrangement.disjoint_slotRange h]
  simp [slotRange]

theorem ranges_subset :
    arrangement.headerRange ∪ Finset.univ.biUnion arrangement.slotRange ⊆
      Finset.range pageSize := by
  intro byte hbyte
  rw [Finset.mem_range]
  rcases Finset.mem_union.1 hbyte with hheader | hslots
  · have hinside := arrangement.header_inside
    simp only [headerRange, Finset.mem_Ico] at hheader
    omega
  · obtain ⟨i, _, hslot⟩ := Finset.mem_biUnion.1 hslots
    have hinside := arrangement.slot_inside i
    simp only [slotRange, Finset.mem_Ico] at hslot
    omega

include arrangement in
/-- Whatever has a place on the page of its own fits in as a whole. -/
theorem bytes_le : headerBytes slots + slots * slotSize ≤ pageSize := by
  have hdisjoint : Disjoint arrangement.headerRange
      (Finset.univ.biUnion arrangement.slotRange) :=
    (Finset.disjoint_biUnion_right ..).2 fun i _ => arrangement.disjoint_headerRange i
  calc headerBytes slots + slots * slotSize
      = arrangement.headerRange.card + (Finset.univ.biUnion arrangement.slotRange).card := by
        rw [card_slots, headerRange, Nat.card_Ico, Nat.add_sub_cancel_left]
    _ = (arrangement.headerRange ∪ Finset.univ.biUnion arrangement.slotRange).card :=
        (Finset.card_union_of_disjoint hdisjoint).symm
    _ ≤ (Finset.range pageSize).card := Finset.card_le_card arrangement.ranges_subset
    _ = pageSize := Finset.card_range pageSize

end Ranges

/-- Some of the slots, under a header that is no longer than it has to be. -/
def restrict (arrangement : Arrangement pageSize slotSize slots) (h : fewer ≤ slots) :
    Arrangement pageSize slotSize fewer where
  header := arrangement.header
  slot i := arrangement.slot (i.castLE h)
  header_inside := by
    have hheader := headerBytes_mono h
    have hinside := arrangement.header_inside
    omega
  slot_inside i := arrangement.slot_inside (i.castLE h)
  header_apart i := by
    have hheader := headerBytes_mono h
    have hapart := arrangement.header_apart (i.castLE h)
    omega
  slot_apart i j hne :=
    arrangement.slot_apart (i.castLE h) (j.castLE h) fun hsame => hne (Fin.castLE_injective h hsame)

end Arrangement

variable (layout : Layout)

/-- The header in front, and the slots behind it side by side. -/
def arrangement : Arrangement layout.pageSize layout.schema.size layout.slotCount where
  header := 0
  slot i := layout.slotOffset i
  header_inside := by
    have hfits := layout.headerSize_add_le
    have hheader : headerBytes layout.slotCount = layout.headerSize := rfl
    omega
  slot_inside i := slotOffset_add_le i.isLt
  header_apart i := .inl <| by
    have hheader : headerBytes layout.slotCount = layout.headerSize := rfl
    rw [hheader, Nat.zero_add]
    exact Nat.le_add_right ..
  slot_apart i j hne := (Nat.lt_or_gt_of_ne (Fin.val_ne_of_ne hne)).imp slotOffset_add_le_of_lt
    slotOffset_add_le_of_lt

variable {layout}

/-- A page that has room for a number of slots has the bits of that many. -/
theorem le_slotCount {slots : Nat}
    (h : headerBytes slots + slots * layout.schema.size ≤ layout.pageSize) :
    slots ≤ layout.slotCount := by
  have hbits : slots ≤ headerBytes slots * byteWidth := headerBytes_le_iff.1 (Nat.le_refl _)
  have hpos : 0 < layout.tupleBits := Nat.succ_pos _
  rw [slotCount, Nat.le_div_iff_mul_le hpos]
  calc slots * layout.tupleBits
      = slots + slots * layout.schema.size * byteWidth := by
        rw [tupleBits, Nat.mul_succ, Nat.mul_assoc, Nat.add_comm]
    _ ≤ headerBytes slots * byteWidth + slots * layout.schema.size * byteWidth :=
        Nat.add_le_add_right hbits _
    _ = (headerBytes slots + slots * layout.schema.size) * byteWidth := (Nat.add_mul ..).symm
    _ ≤ layout.pageSize * byteWidth := Nat.mul_le_mul_right byteWidth h

theorem nonempty_arrangement_iff {slots : Nat} :
    Nonempty (Arrangement layout.pageSize layout.schema.size slots) ↔
      slots ≤ layout.slotCount :=
  ⟨fun ⟨arrangement⟩ => le_slotCount arrangement.bytes_le, fun h => ⟨layout.arrangement.restrict h⟩⟩

theorem countable (h : layout.pageSize * byteWidth < wordLimit) : layout.Countable where
  rounded := by
    have hbits := layout.slotCount_mul_le
    have hslots : layout.slotCount ≤ layout.slotCount * layout.tupleBits :=
      Nat.le_mul_of_pos_right _ (Nat.succ_pos _)
    have hlimit : wordLimit = 18446744073709551616 := rfl
    rw [show byteWidth = 8 from rfl] at h hbits
    omega
  stops slot hslot := by
    have hfits : layout.slotOffset slot + layout.schema.size ≤ layout.pageSize :=
      slotOffset_add_le hslot
    have hpage : layout.pageSize ≤ layout.pageSize * byteWidth :=
      Nat.le_mul_of_pos_right _ (by decide)
    omega

theorem inRange {page : Page} (hlength : page.data.length = layout.pageSize) :
    layout.InRange page where
  bit slot hslot :=
    (Nat.div_lt_iff_lt_mul (by decide)).2 (Nat.lt_of_lt_of_le hslot layout.slotCount_le_header)
  header := by
    have hfits := layout.headerSize_add_le
    omega
  isSlotUsed _ := ⟨_, isSlotUsed_eq hlength⟩
  freeSlots := ⟨_, freeSlots_eq hlength⟩
  tuples := ⟨_, tuples_eq hlength⟩
  insert tx tuple fault after hfault := by
    obtain ⟨_, herror⟩ := (inserts tx tuple hlength).error _ _ hfault
    cases herror
  delete tx tuple fault after hfault := by
    obtain ⟨_, herror⟩ := (deletes tx tuple hlength).error _ _ hfault
    cases herror

/-- **Geometry of a heap page.** The header and all slots lie on the page and apart from each other;
no page of this size has room for more slots under a header of their own, however they are put; and
over pages of any bytes, no operation leaves the page, whatever slot it is asked for. -/
theorem tight_and_safe {schema : Schema} {pageSize : Nat}
    (htuple : schema.size * byteWidth + 1 < wordLimit)
    (hpage : pageSize * byteWidth < wordLimit) :
    ∃ layout, Layout.ofSchema schema pageSize = .ok layout ∧
      layout.headerSize = headerBytes layout.slotCount ∧
      (∃ arrangement : Arrangement pageSize schema.size layout.slotCount,
        arrangement.header = 0 ∧ ∀ slot, arrangement.slot slot = layout.slotOffset slot) ∧
      (∀ slots, Nonempty (Arrangement pageSize schema.size slots) ↔ slots ≤ layout.slotCount) ∧
      layout.Countable ∧
      ∀ page : Page, page.data.length = pageSize → layout.InRange page := by
  refine ⟨{ schema, pageSize }, ofSchema_eq htuple hpage, rfl,
    ⟨arrangement { schema, pageSize }, rfl, fun _ => rfl⟩, fun slots => ?_, countable hpage,
    fun page hlength => inRange hlength⟩
  exact @nonempty_arrangement_iff { schema, pageSize } slots

/-- A page of five bytes has one slot, and with one byte less it has none. -/
theorem tight_and_safe_cramped :
    (Schema.mk 1).size * byteWidth + 1 < wordLimit ∧ 5 * byteWidth < wordLimit ∧
      ∃ layout, Layout.ofSchema ⟨1⟩ 5 = .ok layout ∧
        Nonempty (Arrangement 5 (Schema.mk 1).size 1) ∧
        ¬Nonempty (Arrangement 5 (Schema.mk 1).size 2) ∧
        layout.InRange (Page.load ⟨0, 0⟩ [0xff, 1, 2, 3, 4]) := by
  refine ⟨by decide, by decide, ?_⟩
  obtain ⟨layout, hlayout, _, _, htight, _, hsafe⟩ :=
    @tight_and_safe ⟨1⟩ 5 (by decide) (by decide)
  have hslots : layout = { schema := ⟨1⟩, pageSize := 5 } :=
    Except.ok.inj (hlayout.symm.trans (ofSchema_eq (by decide) (by decide)))
  subst hslots
  exact ⟨_, hlayout, (htight 1).2 (by decide), fun h => absurd ((htight 2).1 h) (by decide),
    hsafe _ rfl⟩

example : (Layout.mk ⟨1⟩ 4).slotCount = 0 ∧ (Layout.mk ⟨1⟩ 5).slotCount = 1 := by decide

end Layout

end PagePool
