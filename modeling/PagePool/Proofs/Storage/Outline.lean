import PagePool.Proofs.Storage.Volume

/-!
# What a volume is apart from its bytes

The kind of a volume, the number of its pages and its gate decide whether a call succeeds, and how
it fails if it does not. Of volumes whose calls do not fail, those with the same outline answer
every call alike, but for the bytes of the pages. Only an append changes the outline.
-/

namespace PagePool

namespace Volume

structure Outline where
  isFile : Bool
  pages : Nat
  gateClosed : Bool
  deriving DecidableEq

def outline (volume : Volume) (pageSize : Nat) : Outline where
  isFile :=
    match volume.medium with
    | .file _ => true
    | .memory _ => false
  pages :=
    match volume.medium with
    | .file file => file.length / pageSize
    | .memory pages => pages.length
  gateClosed := volume.gateClosed

namespace Outline

def count (outline : Outline) (pageSize : Nat) : Except Failure Nat :=
  if outline.isFile ∧ pageSize = 0 then .error (.fault .divisionByZero) else .ok outline.pages

/-- How the read of a page that does not exist fails. -/
def missing (outline : Outline) (pageSize : Nat) (table : UInt32) (id : PageId) : Failure :=
  if outline.isFile then
    if pageSize = 0 then .fault .divisionByZero else .error (.beyondEnd id table)
  else .error (.pageMissing id)

/-- How an append fails: pages in memory cannot be appended. -/
def refusal (outline : Outline) : Failure :=
  if outline.isFile then .fault .divisionByZero else .fault .outOfRange

def extended (outline : Outline) : Outline :=
  { outline with pages := outline.pages + 1 }

end Outline

variable {volume after : Volume} {pageSize : Nat}

theorem outline_congr (hmedium : after.medium = volume.medium)
    (hgate : after.gateClosed = volume.gateClosed) :
    after.outline pageSize = volume.outline pageSize := by
  simp only [outline, hmedium, hgate]

theorem pageCount_eq (volume : Volume) (pageSize : Nat) :
    volume.pageCount pageSize = (volume.outline pageSize).count pageSize := by
  unfold pageCount outline Outline.count
  cases volume.medium <;> simp [File.pageCount]

theorem isSome_stored?_iff_outline {index : Nat} :
    (volume.stored? pageSize index).isSome ↔ index < (volume.outline pageSize).pages := by
  unfold stored? outline
  cases volume.medium with
  | file file => simp
  | memory pages => simp

theorem ends_callRead_outline (h : volume.Reliable pageSize) :
    Ends callRead volume
      (fun _ after => after.medium = volume.medium ∧ after.gateClosed = volume.gateClosed)
      fun _ _ => False := by
  simp [callRead, Faults.next, h.reads, ends_bind]

theorem ends_callWrite_outline (h : volume.Reliable pageSize) :
    Ends callWrite volume
      (fun _ after => after.medium = volume.medium ∧ after.gateClosed = volume.gateClosed)
      fun _ _ => False := by
  simp [callWrite, Faults.next, h.writes, ends_bind]

theorem missing_of_file {file : File} (hmedium : volume.medium = .file file) (table : UInt32)
    (id : PageId) : (volume.outline pageSize).missing pageSize table id =
      if pageSize = 0 then .fault .divisionByZero else .error (.beyondEnd id table) := by
  simp [Outline.missing, outline, hmedium]

theorem missing_of_memory {pages : List Bytes} (hmedium : volume.medium = .memory pages)
    (table : UInt32) (id : PageId) :
    (volume.outline pageSize).missing pageSize table id = .error (.pageMissing id) := by
  simp [Outline.missing, outline, hmedium]

theorem ends_readPage_outline (h : volume.Reliable pageSize) (table : UInt32) (id : PageId) :
    Ends (readPage pageSize table id) volume
      (fun _ after => after.outline pageSize = volume.outline pageSize)
      (fun failure after => after.outline pageSize = volume.outline pageSize ∧
        failure = (volume.outline pageSize).missing pageSize table id) := by
  unfold readPage
  refine (ends_callRead_outline h).bind ?_ fun _ _ => False.elim
  rintro _ called ⟨hmedium, hgate⟩
  have hsame : called.outline pageSize = volume.outline pageSize := outline_congr hmedium hgate
  rw [ends_bind, ends_get]
  cases hcalled : called.medium with
  | file file =>
      rw [hcalled] at hmedium
      rw [missing_of_file hmedium.symm]
      simp only [ends_bind, ends_lift, File.pageCount]
      by_cases hsize : pageSize = 0
      · simpa [hsize] using hsame
      · by_cases hbehind : file.length / pageSize ≤ id.index.toNat
        · simp [hsize, hbehind, hsame, ends_bind]
        · simp [hsize, hbehind, hsame, ends_lift, Page.ofBytes]
  | memory pages =>
      rw [hcalled] at hmedium
      rw [missing_of_memory hmedium.symm]
      cases hpage : pages[id.index.toNat]? with
      | none => simp [hpage, hsame]
      | some data =>
          have hlength : data.length = pageSize :=
            h.length_eq id.index.toNat data (by simp [stored?, ← hmedium, hpage])
          simp only [hpage, ends_bind, ends_set, ends_lift, Page.ofBytes, hlength, if_true]
          have hread : ({ called with medium := .memory pages, reads := called.reads + 1 } :
              Volume).outline pageSize = volume.outline pageSize :=
            outline_congr hmedium hgate
          simp [← hcalled] at hread ⊢
          exact hread

/-- Only a page that the volume has is written over. -/
theorem ends_writeAt_outline (h : volume.Reliable pageSize) {index : Nat} {old data : Bytes}
    (hold : volume.stored? pageSize index = some old) (hlength : data.length = pageSize) :
    Ends (writeAt pageSize index data) volume
      (fun _ after => after.outline pageSize = volume.outline pageSize) fun _ _ => False := by
  have hindex : index < (volume.outline pageSize).pages :=
    isSome_stored?_iff_outline.1 (by rw [hold]; rfl)
  unfold writeAt
  rw [ends_bind, ends_get]
  cases hmedium : volume.medium with
  | file file =>
      simp only [outline, hmedium] at hindex
      have hsize : 0 < pageSize := Nat.pos_of_ne_zero fun hzero => by simp [hzero] at hindex
      have hdata : data ≠ [] := List.ne_nil_of_length_pos (by omega)
      simp only [ne_eq, hdata, not_false_eq_true, if_true]
      refine (ends_callWrite_outline h).bind ?_ fun _ _ => False.elim
      rintro _ called ⟨hcalled, hgate⟩
      have hinside : index * pageSize + pageSize ≤ file.length := by
        have := Nat.mul_le_mul_right pageSize hindex
        have := Nat.div_mul_le_self file.length pageSize
        rw [Nat.succ_mul] at *
        omega
      rw [ends_modify]
      simp only [outline, hmedium, length_write file _ hdata, hlength, Nat.max_eq_left hinside,
        hgate]
  | memory pages =>
      simp only [outline, hmedium] at hindex
      refine (ends_callWrite_outline h).bind ?_ fun _ _ => False.elim
      rintro _ called ⟨hcalled, hgate⟩
      simp only [hindex, if_true, ends_modify, outline, hmedium, List.length_set, hgate]

theorem ends_appendPage_outline (h : volume.Reliable pageSize) (hroom : volume.HasRoom pageSize) :
    Ends (appendPage pageSize) volume
      (fun index after => index = UInt32.ofNat (volume.outline pageSize).pages ∧
        (volume.outline pageSize).isFile = true ∧ pageSize ≠ 0 ∧
        after.outline pageSize = (volume.outline pageSize).extended)
      (fun failure after => after.outline pageSize = volume.outline pageSize ∧
        ((volume.outline pageSize).isFile = true → pageSize = 0) ∧
        failure = (volume.outline pageSize).refusal) := by
  unfold appendPage
  rw [ends_bind, ends_get, ends_bind, ends_lift]
  refine ⟨fun count hcount => ?_, fun failure hfailure => ?_⟩
  · have hindex : (UInt32.ofNat count).toNat = count :=
      UInt32.toNat_ofNat_of_lt' (hroom count hcount)
    unfold writeAt
    rw [ends_bind, ends_bind, ends_get, hindex]
    unfold pageCount at hcount
    cases hmedium : volume.medium with
    | file file =>
        simp only [hmedium, File.pageCount] at hcount
        split at hcount
        · cases hcount
        rename_i hsize
        replace hcount : file.length / pageSize = count := Except.ok.inj hcount
        have hpos : 0 < pageSize := Nat.pos_of_ne_zero hsize
        have hlength : (Bytes.zeros pageSize).length = pageSize := List.length_replicate
        have hdata : Bytes.zeros pageSize ≠ [] := List.ne_nil_of_length_pos (by omega)
        simp only [ne_eq, hdata, not_false_eq_true, if_true]
        refine (ends_callWrite_outline h).bind ?_ fun _ _ => False.elim
        rintro _ called ⟨hcalled, hgate⟩
        have hbehind : file.length < count * pageSize + pageSize := by
          rw [← hcount, ← Nat.succ_mul, Nat.mul_comm]
          exact Nat.lt_mul_div_succ file.length hpos
        rw [ends_modify, ends_pure]
        simp only [outline, Outline.extended, hmedium, length_write file _ hdata, hlength, hcount,
          hgate, Nat.max_eq_right (Nat.le_of_lt hbehind), hsize, not_false_eq_true, true_and,
          Outline.mk.injEq, and_true]
        rw [← Nat.succ_mul, Nat.mul_div_cancel _ hpos]
    | memory pages =>
        simp only [hmedium, Except.ok.injEq] at hcount
        refine (ends_callWrite_outline h).bind ?_ fun _ _ => False.elim
        rintro _ called ⟨hcalled, hgate⟩
        simp only [← hcount, Nat.lt_irrefl, if_false, ends_throw]
        refine ⟨outline_congr hcalled hgate, ?_, ?_⟩
        · simp [outline, hmedium]
        · simp [outline, Outline.refusal, hmedium]
  · rw [pageCount_eq, Outline.count] at hfailure
    split at hfailure
    · next hzero =>
      refine ⟨rfl, fun _ => hzero.2, ?_⟩
      rw [Outline.refusal, if_pos hzero.1]
      exact (Except.error.inj hfailure).symm
    · cases hfailure

end Volume

end PagePool
