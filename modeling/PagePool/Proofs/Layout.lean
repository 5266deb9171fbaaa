import PagePool.Proofs.Bits
import PagePool.Proofs.Page
import PagePool.Proofs.Tuple

/-!
# Tuples on a heap page

The slots of a page lie behind its header and apart from each other, and a page is a map from its
slots to cells: insertions and deletions change the map at one slot, and a listing shows the map.
-/

namespace PagePool

namespace Layout

section Geometry

variable (layout : Layout)

theorem slotCount_mul_le : layout.slotCount * layout.tupleBits ≤ layout.pageSize * byteWidth :=
  Nat.div_mul_le_self ..

theorem headerSize_add_le :
    layout.headerSize + layout.slotCount * layout.schema.size ≤ layout.pageSize := by
  have hbits := layout.slotCount_mul_le
  have hwidth : byteWidth = 8 := rfl
  rw [hwidth] at hbits
  have hexpand : layout.slotCount * layout.tupleBits =
      layout.slotCount * layout.schema.size * 8 + layout.slotCount := by
    rw [tupleBits, hwidth, Nat.mul_add, Nat.mul_one, Nat.mul_assoc]
  have hheader : layout.headerSize = (layout.slotCount + 7) / 8 := rfl
  omega

theorem slotCount_le_header : layout.slotCount ≤ layout.headerSize * byteWidth := by
  have hheader : layout.headerSize = (layout.slotCount + 7) / 8 := rfl
  have hwidth : byteWidth = 8 := rfl
  rw [hwidth]
  omega

variable {layout} {slot other i : Nat}

theorem slotOffset_add_le (h : slot < layout.slotCount) :
    layout.slotOffset slot + layout.schema.size ≤ layout.pageSize := by
  have hfits := layout.headerSize_add_le
  have hslots := Nat.mul_le_mul_right layout.schema.size (Nat.succ_le_of_lt h)
  rw [Nat.succ_mul] at hslots
  unfold slotOffset
  omega

theorem slotOffset_add_le_of_lt (h : other < slot) :
    layout.slotOffset other + layout.schema.size ≤ layout.slotOffset slot := by
  have hslots := Nat.mul_le_mul_right layout.schema.size (Nat.succ_le_of_lt h)
  rw [Nat.succ_mul] at hslots
  unfold slotOffset
  omega

/-- No byte of a slot belongs to another one. -/
theorem not_in_slot (h : other ≠ slot) (hi : i < layout.schema.size) :
    ¬(layout.slotOffset slot ≤ layout.slotOffset other + i ∧
      layout.slotOffset other + i < layout.slotOffset slot + layout.schema.size) := by
  rintro ⟨hfrom, hto⟩
  rcases Nat.lt_or_gt_of_ne h with hbefore | hbehind
  · have : layout.slotOffset other + layout.schema.size ≤ layout.slotOffset slot :=
      slotOffset_add_le_of_lt hbefore
    omega
  · have : layout.slotOffset slot + layout.schema.size ≤ layout.slotOffset other :=
      slotOffset_add_le_of_lt hbehind
    omega

/-- The header bits of the slots come before all slots. -/
theorem div_lt_slotOffset (h : other < layout.slotCount) (slot : Nat) :
    other / byteWidth < layout.slotOffset slot := by
  have hheader : other / byteWidth < layout.headerSize :=
    (Nat.div_lt_iff_lt_mul (by decide)).2 (Nat.lt_of_lt_of_le h layout.slotCount_le_header)
  exact Nat.lt_of_lt_of_le hheader (Nat.le_add_right ..)

end Geometry

def slotBytes (layout : Layout) (data : Bytes) (slot : Nat) : Bytes :=
  (data.drop (layout.slotOffset slot)).take layout.schema.size

def tupleIn (layout : Layout) (page : Page) (slot : Nat) : Tuple where
  cells := Cell.decodeAll (layout.slotBytes page.data slot)
  rid := some { page := page.id, slot }

/-- The cells in a slot of a page, unless it is free. -/
def row? (layout : Layout) (page : Page) (slot : Nat) : Option (List Cell) :=
  match layout.isSlotUsed page slot with
  | .ok true => (layout.tupleAt page slot).toOption.map Tuple.cells
  | _ => none

section Reading

variable {layout : Layout} {page : Page} {slot : Nat}

theorem mem_usedSlots {occupancy : List Bool} :
    slot ∈ usedSlots occupancy ↔ occupancy[slot]? = some true := by
  simp [usedSlots, List.mem_zipIdx_iff_getElem?]

theorem pairwise_usedSlots (occupancy : List Bool) : (usedSlots occupancy).Pairwise (· < ·) := by
  refine List.Pairwise.sublist (List.filter_sublist.map Prod.snd) ?_
  rw [List.zipIdx_map_snd]
  exact List.pairwise_lt_range'

theorem nodup_usedSlots (occupancy : List Bool) : (usedSlots occupancy).Nodup :=
  (pairwise_usedSlots occupancy).imp Nat.ne_of_lt

theorem length_usedSlots (occupancy : List Bool) :
    (usedSlots occupancy).length = occupancy.count true := by
  have hfst : (occupancy.zipIdx.map Prod.fst).countP (· == true) =
      occupancy.zipIdx.countP Prod.fst := by
    rw [List.countP_map]
    simp [Function.comp_def]
  rw [usedSlots, List.length_map, ← List.countP_eq_length_filter, ← hfst, List.zipIdx_map_fst,
    List.count]

theorem exists_slot_of_mem {slots : List Nat} {tuples : List Tuple} {tuple : Tuple}
    (h : slots.mapM (layout.tupleAt page) = .ok tuples) (hmem : tuple ∈ tuples) :
    ∃ slot ∈ slots, layout.tupleAt page slot = .ok tuple := by
  induction slots generalizing tuples with
  | nil =>
      cases h
      cases hmem
  | cons slot rest ih =>
      rw [List.mapM_cons] at h
      cases hfirst : layout.tupleAt page slot with
      | error failure =>
          rw [hfirst] at h
          cases h
      | ok first =>
          rw [hfirst] at h
          cases hothers : rest.mapM (layout.tupleAt page) with
          | error failure =>
              rw [hothers] at h
              cases h
          | ok others =>
              rw [hothers] at h
              cases h
              rcases List.mem_cons.1 hmem with rfl | hlater
              · exact ⟨slot, List.mem_cons_self, hfirst⟩
              · obtain ⟨found, hfound, hat⟩ := ih hothers hlater
                exact ⟨found, List.mem_cons_of_mem slot hfound, hat⟩

theorem rid_of_mem_tuples {tuples : List Tuple} {tuple : Tuple}
    (h : layout.tuples page = .ok tuples) (hmem : tuple ∈ tuples) :
    ∃ rid, tuple.rid = some rid ∧ rid.page = page.id := by
  unfold Layout.tuples at h
  cases hoccupancy : layout.occupancy page with
  | error failure =>
      rw [hoccupancy] at h
      cases h
  | ok occupancy =>
      rw [hoccupancy] at h
      obtain ⟨slot, _, hat⟩ := exists_slot_of_mem h hmem
      unfold tupleAt at hat
      cases hslice : Bytes.slice page.data (layout.slotOffset slot) layout.schema.size with
      | error failure =>
          rw [hslice] at hat
          cases hat
      | ok bytes =>
          rw [hslice] at hat
          cases hat
          exact ⟨_, rfl, rfl⟩

theorem getElem?_slotBytes (data : Bytes) (slot i : Nat) :
    (layout.slotBytes data slot)[i]? =
      if i < layout.schema.size then data[layout.slotOffset slot + i]? else none := by
  rw [slotBytes, List.getElem?_take, List.getElem?_drop]

theorem row?_congr {other : Page} (hdata : other.data = page.data) :
    layout.row? other = layout.row? page := by
  funext slot
  have hcells : ∀ page : Page, (layout.tupleAt page slot).toOption.map Tuple.cells =
      (Bytes.slice page.data (layout.slotOffset slot) layout.schema.size).toOption.map
        Cell.decodeAll := by
    intro page
    unfold tupleAt
    cases Bytes.slice page.data (layout.slotOffset slot) layout.schema.size <;> rfl
  simp only [row?, isSlotUsed, occupancy, hcells, hdata]

/-- A listing depends on the number and the bytes of the page alone. -/
theorem tuples_congr {other : Page} (hid : other.id = page.id) (hdata : other.data = page.data) :
    layout.tuples other = layout.tuples page := by
  have hat : layout.tupleAt other = layout.tupleAt page := by
    funext slot
    simp only [tupleAt, hid, hdata]
  simp only [Layout.tuples, occupancy, hdata, hat]

variable (hlength : page.data.length = layout.pageSize)
include hlength

theorem slotCount_le_length_bits : layout.slotCount ≤ page.data.bits.length := by
  have hfits := layout.headerSize_add_le
  have hheader : layout.headerSize ≤ page.data.length := by omega
  rw [Bytes.length_bits]
  exact Nat.le_trans layout.slotCount_le_header (Nat.mul_le_mul_right _ hheader)

theorem lt_length_bits (hslot : slot < layout.slotCount) : slot < page.data.bits.length :=
  Nat.lt_of_lt_of_le hslot (slotCount_le_length_bits hlength)

theorem occupancy_eq :
    layout.occupancy page = .ok (page.data.bits.take layout.slotCount) := by
  have hfits := layout.headerSize_add_le
  have hslots := layout.slotCount_le_header
  have hslice : Bytes.slice page.data 0 layout.headerSize =
      .ok (page.data.take layout.headerSize) :=
    if_pos (by omega)
  have hmany : layout.slotCount ≤
      (Bytes.bits (page.data.take layout.headerSize)).length := by
    have hheader : layout.headerSize ≤ page.data.length := by omega
    rw [Bytes.length_bits, List.length_take, Nat.min_eq_left hheader]
    exact hslots
  rw [Bytes.bits_take] at hmany
  simp only [occupancy, hslice, bind, Except.bind, Bytes.bits_take, if_pos hmany, List.take_take,
    Nat.min_eq_left hslots, pure, Except.pure]

theorem isSlotUsed_eq :
    layout.isSlotUsed page slot =
      .ok (decide (slot < layout.slotCount ∧ page.data.bits[slot]? = some true)) := by
  unfold isSlotUsed
  split
  · next hslot =>
    rw [occupancy_eq hlength]
    have hget : (page.data.bits.take layout.slotCount)[slot]? = page.data.bits[slot]? :=
      List.getElem?_take_of_lt hslot
    simp only [bind, Except.bind, pure, Except.pure, List.getD_eq_getElem?_getD, hget, hslot,
      true_and]
    cases page.data.bits[slot]? with
    | none => rfl
    | some used => cases used <;> rfl
  · next hslot => simp [hslot, pure, Except.pure]

theorem tupleAt_eq (hslot : slot < layout.slotCount) :
    layout.tupleAt page slot = .ok (layout.tupleIn page slot) := by
  have hfits := slotOffset_add_le hslot
  have hslice : Bytes.slice page.data (layout.slotOffset slot) layout.schema.size =
      .ok (layout.slotBytes page.data slot) :=
    if_pos (by omega)
  simp only [tupleAt, tupleIn, hslice, bind, Except.bind, pure, Except.pure]

theorem row?_eq :
    layout.row? page slot =
      if slot < layout.slotCount ∧ page.data.bits[slot]? = some true then
        some (Cell.decodeAll (layout.slotBytes page.data slot))
      else none := by
  unfold row?
  rw [isSlotUsed_eq hlength]
  by_cases hused : slot < layout.slotCount ∧ page.data.bits[slot]? = some true
  · rw [if_pos hused, tupleAt_eq hlength hused.1]
    simp only [hused, and_self, decide_true, Except.toOption, Option.map_some, tupleIn]
  · simp [hused]

theorem isSome_row?_iff :
    (layout.row? page slot).isSome ↔
      slot < layout.slotCount ∧ page.data.bits[slot]? = some true := by
  rw [row?_eq hlength]
  split <;> simp [*]

theorem isSlotUsed_eq_isSome :
    layout.isSlotUsed page slot = .ok (layout.row? page slot).isSome := by
  rw [isSlotUsed_eq hlength, ← decide_eq_decide.2 (isSome_row?_iff hlength), Bool.decide_coe]

theorem row?_eq_none_iff (hslot : slot < layout.slotCount) :
    layout.row? page slot = none ↔ page.data.bits[slot]? = some false := by
  rw [← Option.not_isSome_iff_eq_none, isSome_row?_iff hlength,
    List.getElem?_eq_getElem (lt_length_bits hlength hslot)]
  simp [hslot]

theorem freeSlots_eq :
    layout.freeSlots page = .ok ((page.data.bits.take layout.slotCount).count false) := by
  rw [freeSlots, occupancy_eq hlength]
  rfl

theorem exists_freeSlots : ∃ free, layout.freeSlots page = .ok free ∧
    (0 < free ↔ ∃ slot < layout.slotCount, layout.row? page slot = none) := by
  refine ⟨_, freeSlots_eq hlength, ?_⟩
  rw [List.count_pos_iff, List.mem_iff_getElem?]
  constructor
  · rintro ⟨slot, hfree⟩
    rw [List.getElem?_take] at hfree
    split at hfree
    · next hslot => exact ⟨slot, hslot, (row?_eq_none_iff hlength hslot).2 hfree⟩
    · cases hfree
  · rintro ⟨slot, hslot, hfree⟩
    refine ⟨slot, ?_⟩
    rw [List.getElem?_take_of_lt hslot, (row?_eq_none_iff hlength hslot).1 hfree]

theorem mapM_tupleAt_eq {slots : List Nat} (hslots : ∀ slot ∈ slots, slot < layout.slotCount) :
    slots.mapM (layout.tupleAt page) = .ok (slots.map (layout.tupleIn page)) := by
  induction slots with
  | nil => rfl
  | cons slot rest ih =>
      rw [List.mapM_cons, tupleAt_eq hlength (hslots slot List.mem_cons_self),
        ih fun other hmem => hslots other (List.mem_cons_of_mem slot hmem)]
      rfl

omit hlength in
theorem mem_usedSlots_iff : slot ∈ usedSlots (page.data.bits.take layout.slotCount) ↔
    slot < layout.slotCount ∧ page.data.bits[slot]? = some true := by
  rw [mem_usedSlots, List.getElem?_take]
  split <;> simp [*]

theorem tuples_eq : layout.tuples page =
    .ok ((usedSlots (page.data.bits.take layout.slotCount)).map (layout.tupleIn page)) := by
  rw [Layout.tuples, occupancy_eq hlength]
  exact mapM_tupleAt_eq hlength fun slot hmem => (mem_usedSlots_iff.1 hmem).1

theorem mem_tuples_iff {tuples : List Tuple} {tuple : Tuple} (h : layout.tuples page = .ok tuples) :
    tuple ∈ tuples ↔ ∃ slot cells, layout.row? page slot = some cells ∧
      tuple = { cells, rid := some { page := page.id, slot } } := by
  obtain rfl := Except.ok.inj ((tuples_eq hlength).symm.trans h)
  rw [List.mem_map]
  constructor
  · rintro ⟨slot, hmem, rfl⟩
    refine ⟨slot, _, ?_, rfl⟩
    rw [row?_eq hlength, if_pos (mem_usedSlots_iff.1 hmem)]
  · rintro ⟨slot, cells, hrow, rfl⟩
    rw [row?_eq hlength] at hrow
    split at hrow
    · next hused =>
      obtain rfl := Option.some.inj hrow
      exact ⟨slot, mem_usedSlots_iff.2 hused, rfl⟩
    · cases hrow

theorem nodup_rid {tuples : List Tuple} (h : layout.tuples page = .ok tuples) :
    (tuples.map Tuple.rid).Nodup := by
  obtain rfl := Except.ok.inj ((tuples_eq hlength).symm.trans h)
  rw [List.map_map]
  refine List.pairwise_map.2 ((nodup_usedSlots _).imp fun hne hsame => hne ?_)
  exact congrArg RecordId.slot (Option.some.inj hsame)

end Reading

theorem row?_zeros (layout : Layout) (id : PageId) (slot : Nat) :
    layout.row? (Page.load id (Bytes.zeros layout.pageSize)) slot = none := by
  have hlength : (Page.load id (Bytes.zeros layout.pageSize)).data.length = layout.pageSize :=
    List.length_replicate
  rw [row?_eq hlength, if_neg]
  rintro ⟨_, hbit⟩
  rw [Bytes.getElem?_bits] at hbit
  obtain ⟨byte, hbyte, htest⟩ := Option.map_eq_some_iff.1 hbit
  obtain rfl := List.eq_of_mem_replicate (List.mem_of_getElem? hbyte)
  rw [UInt8.toNat_zero, Nat.zero_testBit] at htest
  cases htest

section Writing

variable {layout : Layout} {tx : TxId} {page : Page} {slot : Nat}

/-- Bits and bytes that a write to a slot leaves are those of other slots. -/
theorem row?_of_ne {after : Page} {other : Nat} (hlength : page.data.length = layout.pageSize)
    (hafter : after.data.length = layout.pageSize)
    (hbit : other < layout.slotCount → after.data.bits[other]? = page.data.bits[other]?)
    (hbyte : ∀ i < layout.schema.size,
      after.data[layout.slotOffset other + i]? = page.data[layout.slotOffset other + i]?) :
    layout.row? after other = layout.row? page other := by
  have hbytes : layout.slotBytes after.data other = layout.slotBytes page.data other := by
    refine List.ext_getElem? fun i => ?_
    rw [getElem?_slotBytes, getElem?_slotBytes]
    split
    · next hi => exact hbyte i hi
    · rfl
  rw [row?_eq hlength, row?_eq hafter, hbytes]
  by_cases hother : other < layout.slotCount
  · rw [hbit hother]
  · rw [if_neg fun h => hother h.1, if_neg fun h => hother h.1]

theorem getElem?_setBit_of_le {data : Bytes} {value : Bool} (hslot : slot < layout.slotCount)
    {i other : Nat} (hi : layout.slotOffset other ≤ i) :
    (data.setBit slot value)[i]? = data[i]? := by
  have hheader := div_lt_slotOffset hslot other
  rw [Bytes.setBit, List.getElem?_modify]
  simp [show slot / byteWidth ≠ i by omega]

/-- A tuple that is put into a slot shows there, and nowhere else. -/
theorem row?_write {after : Page} {chunk : Bytes} (hlength : page.data.length = layout.pageSize)
    (hslot : slot < layout.slotCount) (hchunk : chunk.length = layout.schema.size)
    (hdata : after.data =
      (page.data.setBit slot true).overwrite (layout.slotOffset slot) chunk) (other : Nat) :
    layout.row? after other =
      if other = slot then some (Cell.decodeAll chunk) else layout.row? page other := by
  have hfits := slotOffset_add_le hslot
  have hmarked : (page.data.setBit slot true).length = layout.pageSize := by
    rw [Bytes.length_setBit, hlength]
  have hafter : after.data.length = layout.pageSize := by
    rw [hdata, Bytes.length_overwrite, hmarked]
  have hinside : layout.slotOffset slot + chunk.length ≤ (page.data.setBit slot true).length := by
    omega
  have hbyte := Bytes.getElem?_overwrite hinside
  rw [← hdata, hchunk] at hbyte
  have hbit : ∀ {other}, other < layout.slotCount →
      after.data.bits[other]? = (page.data.setBit slot true).bits[other]? := by
    intro other hother
    have hheader := div_lt_slotOffset hother slot
    rw [Bytes.getElem?_bits, hbyte, if_neg (by omega), ← Bytes.getElem?_bits]
  split
  · next hsame =>
    subst hsame
    have hused : after.data.bits[other]? = some true := by
      rw [hbit hslot, Bytes.getElem?_bits_setBit, if_pos rfl,
        List.getElem?_eq_getElem (lt_length_bits hlength hslot)]
      rfl
    have hcells : layout.slotBytes after.data other = chunk := by
      refine List.ext_getElem? fun i => ?_
      rw [getElem?_slotBytes]
      split
      · next hi =>
        rw [hbyte, if_pos (by omega)]
        congr 1
        omega
      · next hi => rw [List.getElem?_eq_none (by omega)]
    rw [row?_eq hafter, if_pos ⟨hslot, hused⟩, hcells]
  · next hne =>
    refine row?_of_ne hlength hafter (fun hother => ?_) fun i hi => ?_
    · rw [hbit hother, Bytes.getElem?_bits_setBit, if_neg hne]
    · rw [hbyte, if_neg (not_in_slot hne hi), getElem?_setBit_of_le hslot (Nat.le_add_right ..)]

theorem row?_clear {after : Page} (hlength : page.data.length = layout.pageSize)
    (hslot : slot < layout.slotCount) (hdata : after.data = page.data.setBit slot false)
    (other : Nat) :
    layout.row? after other = if other = slot then none else layout.row? page other := by
  have hafter : after.data.length = layout.pageSize := by
    rw [hdata, Bytes.length_setBit, hlength]
  split
  · next hsame =>
    subst hsame
    have hfree : after.data.bits[other]? = some false := by
      rw [hdata, Bytes.getElem?_bits_setBit, if_pos rfl,
        List.getElem?_eq_getElem (lt_length_bits hlength hslot)]
      rfl
    rw [row?_eq hafter, hfree]
    simp
  · next hne =>
    refine row?_of_ne hlength hafter (fun _ => ?_) fun i _ => ?_
    · rw [hdata, Bytes.getElem?_bits_setBit, if_neg hne]
    · rw [hdata, getElem?_setBit_of_le hslot (Nat.le_add_right ..)]

/-- The lowest slot of a page without cells. -/
structure FirstFree (layout : Layout) (page : Page) (slot : Nat) : Prop where
  lt : slot < layout.slotCount
  free : layout.row? page slot = none
  used : ∀ earlier < slot, (layout.row? page earlier).isSome

theorem firstFree_of_idxOf? (hlength : page.data.length = layout.pageSize)
    (hfound : (page.data.bits.take layout.slotCount).idxOf? false = some slot) :
    layout.FirstFree page slot := by
  obtain ⟨hin, hfree, hearlier⟩ := List.idxOf?_eq_some_iff.1 hfound
  have hslot : slot < layout.slotCount := by
    rw [List.length_take] at hin
    omega
  refine ⟨hslot, ?_, fun earlier hlt => (isSome_row?_iff hlength).2 ⟨Nat.lt_trans hlt hslot, ?_⟩⟩
  · rw [List.getElem_take] at hfree
    rw [row?_eq_none_iff hlength hslot, List.getElem?_eq_getElem (lt_length_bits hlength hslot),
      hfree]
  · have hused := hearlier earlier hlt
    rw [List.getElem_take] at hused
    rw [List.getElem?_eq_getElem (lt_length_bits hlength (Nat.lt_trans hlt hslot))]
    simpa using hused

theorem isSome_of_idxOf? (hlength : page.data.length = layout.pageSize)
    (hfull : (page.data.bits.take layout.slotCount).idxOf? false = none)
    (hslot : slot < layout.slotCount) : (layout.row? page slot).isSome := by
  have hnone := List.idxOf?_eq_none_iff.1 hfull
  rw [← Option.ne_none_iff_isSome, Ne, row?_eq_none_iff hlength hslot]
  intro hfree
  refine hnone (List.mem_of_getElem? (i := slot) ?_)
  rw [List.getElem?_take_of_lt hslot, hfree]

/-- The page with a slot marked as used and a chunk of bytes in it. -/
def filled (layout : Layout) (page : Page) (tx : TxId) (slot : Nat) (chunk : Bytes) : Page :=
  (headed page tx slot true).overwritten tx (layout.slotOffset slot) chunk

theorem filled_eq (chunk : Bytes) : layout.filled page tx slot chunk =
    (page.touch tx).withData
      ((page.data.setBit slot true).overwrite (layout.slotOffset slot) chunk) :=
  rfl

/-- An insertion fills the first free slot of the page, or says why it cannot. -/
theorem ends_insert_exact {tuple : Tuple} (hlength : page.data.length = layout.pageSize) :
    Ends (layout.insert tx tuple) page
      (fun placed after => tuple.width = layout.schema.fields ∧ ∃ slot,
        layout.FirstFree page slot ∧
        placed = { tuple with rid := some { page := page.id, slot } } ∧
        after = layout.filled page tx slot tuple.encode)
      (fun failure after => after = page ∧
        (tuple.width ≠ layout.schema.fields ∧
            failure = .error (.schemaMismatch tuple layout.schema) ∨
          tuple.width = layout.schema.fields ∧
            (∀ slot < layout.slotCount, (layout.row? page slot).isSome) ∧
            failure = .error (.pageFull page.id))) := by
  unfold insert
  split
  · next hwidth => exact ⟨rfl, .inl ⟨hwidth, rfl⟩⟩
  next hwidth =>
  have hwidth := Decidable.not_not.1 hwidth
  rw [ends_bind, ends_get, ends_bind, ends_lift, occupancy_eq hlength]
  refine ⟨?_, fun _ hfailed => by cases hfailed⟩
  rintro _ ⟨⟩
  split
  · next hfull => exact ⟨rfl, .inr ⟨hwidth, fun _ => isSome_of_idxOf? hlength hfull, rfl⟩⟩
  next slot hfound =>
  have hfirst := firstFree_of_idxOf? hlength hfound
  have hfits : layout.slotOffset slot + tuple.encode.length ≤
      (headed page tx slot true).data.length := by
    rw [Tuple.length_encode, hwidth, headed, Page.withData, Bytes.length_setBit, hlength]
    exact slotOffset_add_le hfirst.lt
  refine (ends_setHeader tx page slot true).bind ?_ fun _ _ => False.elim
  rintro _ _ rfl
  refine (Page.ends_write_of_le hfits).bind ?_ fun _ _ => False.elim
  rintro _ _ rfl
  exact ⟨hwidth, slot, hfirst, rfl, rfl⟩

/-- An insertion fills a free slot, or leaves the page alone. -/
theorem ends_insert_row {tuple : Tuple} (hlength : page.data.length = layout.pageSize) :
    Ends (layout.insert tx tuple) page
      (fun placed after => ∃ slot, placed = { tuple with rid := some { page := page.id, slot } } ∧
        layout.row? page slot = none ∧ ∀ other, layout.row? after other =
          if other = slot then some tuple.cells else layout.row? page other)
      (fun _ after => after = page) := by
  refine (ends_insert_exact hlength).mono ?_ fun _ _ h => h.1
  rintro placed after ⟨hwidth, slot, hfirst, hplaced, hafter⟩
  have hchunk : tuple.encode.length = layout.schema.size := by
    rw [Tuple.length_encode, hwidth]
    rfl
  refine ⟨slot, hplaced, hfirst.free, fun other => ?_⟩
  rw [row?_write hlength hfirst.lt hchunk (congrArg Page.data hafter), Tuple.decodeAll_encode]

/-- A deletion clears the header bit of the slot that is named, or says why it cannot. -/
theorem ends_delete_exact {tuple : Tuple} (hlength : page.data.length = layout.pageSize) :
    Ends (layout.delete tx tuple) page
      (fun _ after => ∃ rid, tuple.rid = some rid ∧ rid.page = page.id ∧
        (layout.row? page rid.slot).isSome ∧ after = headed page tx rid.slot false)
      (fun failure after => after = page ∧
        (tuple.rid = none ∧ failure = .error (.recordIdMissing tuple) ∨
          ∃ rid, tuple.rid = some rid ∧
            (rid.page ≠ page.id ∧ failure = .error (.otherPage tuple page.id) ∨
              rid.page = page.id ∧ layout.row? page rid.slot = none ∧
                failure = .error (.slotEmpty rid.slot rid.page)))) := by
  unfold delete
  rw [ends_bind, ends_get]
  cases hrid : tuple.rid with
  | none => exact ⟨rfl, .inl ⟨rfl, rfl⟩⟩
  | some rid =>
      dsimp only
      split
      · next hpage => exact ⟨rfl, .inr ⟨rid, rfl, .inl ⟨hpage, rfl⟩⟩⟩
      next hpage =>
      have hpage := Decidable.not_not.1 hpage
      rw [ends_bind, ends_lift, isSlotUsed_eq_isSome hlength]
      refine ⟨?_, fun _ hfailed => by cases hfailed⟩
      rintro _ ⟨⟩
      split
      · next hused =>
        refine (ends_setHeader tx page rid.slot false).mono ?_ fun _ _ => False.elim
        rintro _ _ rfl
        exact ⟨rid, rfl, hpage, hused, rfl⟩
      · next hfree =>
        exact ⟨rfl, .inr ⟨rid, rfl, .inr ⟨hpage, Option.not_isSome_iff_eq_none.1 hfree, rfl⟩⟩⟩

/-- A deletion frees the slot that is named, or leaves the page alone. -/
theorem ends_delete_row {tuple : Tuple} (hlength : page.data.length = layout.pageSize) :
    Ends (layout.delete tx tuple) page
      (fun _ after => ∃ rid, tuple.rid = some rid ∧ rid.page = page.id ∧
        (layout.row? page rid.slot).isSome ∧ ∀ other, layout.row? after other =
          if other = rid.slot then none else layout.row? page other)
      (fun _ after => after = page) := by
  refine (ends_delete_exact hlength).mono ?_ fun _ _ h => h.1
  rintro _ after ⟨rid, hrid, hpage, hused, hafter⟩
  have hslot := ((isSome_row?_iff hlength).1 hused).1
  exact ⟨rid, hrid, hpage, hused, row?_clear hlength hslot (congrArg Page.data hafter)⟩

end Writing

end Layout

end PagePool
