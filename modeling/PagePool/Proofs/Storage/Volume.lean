import PagePool.Proofs.Ends

/-!
# The pages of a volume

A volume whose calls do not fail is an array of pages: a read gives the page at an index, a write
replaces it and leaves all others alone, and an append adds one page of zeros behind the last one.
-/

namespace PagePool

namespace Volume

/-- The bytes that a volume holds as the page with an index; bytes behind the last whole page of a
file belong to none. -/
def stored? (volume : Volume) (pageSize index : Nat) : Option Bytes :=
  match volume.medium with
  | .file file =>
      if index < file.length / pageSize then some (file.read (index * pageSize) pageSize) else none
  | .memory pages => pages[index]?

/-- No call of the volume fails, and all of its pages have the length of a page. -/
structure Reliable (volume : Volume) (pageSize : Nat) : Prop where
  reads : ∀ call, volume.readFaults.fails call = false
  writes : ∀ call, volume.writeFaults.fails call = false
  length_eq : ∀ index data, volume.stored? pageSize index = some data → data.length = pageSize

/-- The next page of the volume can be given a number of its own. -/
def HasRoom (volume : Volume) (pageSize : Nat) : Prop :=
  ∀ count, volume.pageCount pageSize = .ok count → count < UInt32.size

variable {volume after : Volume} {pageSize : Nat}

theorem stored?_congr (h : after.medium = volume.medium) (index : Nat) :
    after.stored? pageSize index = volume.stored? pageSize index := by
  simp only [stored?, h]

/-- The pages of a volume are those below their number. -/
theorem isSome_stored?_iff {count index : Nat} (hcount : volume.pageCount pageSize = .ok count) :
    (volume.stored? pageSize index).isSome ↔ index < count := by
  unfold pageCount at hcount
  unfold stored?
  cases hmedium : volume.medium with
  | file file =>
      simp only [hmedium, File.pageCount] at hcount ⊢
      split at hcount
      · cases hcount
      · rw [← Except.ok.inj hcount]
        split <;> simp_all
  | memory pages =>
      simp only [hmedium, Except.ok.injEq] at hcount ⊢
      simp [← hcount]

theorem Reliable.congr (h : volume.Reliable pageSize)
    (hreads : after.readFaults.fails = volume.readFaults.fails)
    (hwrites : after.writeFaults.fails = volume.writeFaults.fails)
    (hlength : ∀ index data, after.stored? pageSize index = some data → data.length = pageSize) :
    after.Reliable pageSize where
  reads call := by rw [hreads]; exact h.reads call
  writes call := by rw [hwrites]; exact h.writes call
  length_eq := hlength

theorem Reliable.of_medium (h : volume.Reliable pageSize)
    (hmedium : after.medium = volume.medium)
    (hreads : after.readFaults.fails = volume.readFaults.fails)
    (hwrites : after.writeFaults.fails = volume.writeFaults.fails) :
    after.Reliable pageSize :=
  h.congr hreads hwrites fun index data hdata =>
    h.length_eq index data (by rwa [stored?_congr hmedium] at hdata)

theorem reliable_ofMemory {pages : List Bytes} (h : ∀ page ∈ pages, page.length = pageSize) :
    (ofMedium (.memory pages)).Reliable pageSize where
  reads _ := rfl
  writes _ := rfl
  length_eq _ data hdata := h data (List.mem_of_getElem? hdata)

theorem length_of_stored {index : Nat} {data : Bytes} {file : File}
    (hmedium : volume.medium = .file file)
    (h : volume.stored? pageSize index = some data) : data.length = pageSize := by
  simp only [stored?, hmedium] at h
  split at h
  · rw [← Option.some.inj h, File.length_read]
  · cases h

theorem reliable_ofFile (file : File) : (ofMedium (.file file)).Reliable pageSize where
  reads _ := rfl
  writes _ := rfl
  length_eq _ _ hdata := length_of_stored rfl hdata

theorem ends_callRead (h : volume.Reliable pageSize) :
    Ends callRead volume
      (fun _ after => after.Reliable pageSize ∧ after.medium = volume.medium) fun _ _ => False := by
  simp only [callRead, Faults.next, h.reads, ends_bind, ends_get, ends_set, Bool.false_eq_true,
    if_false, ends_pure, and_true]
  exact h.of_medium rfl rfl rfl

theorem ends_callWrite (h : volume.Reliable pageSize) :
    Ends callWrite volume
      (fun _ after => after.Reliable pageSize ∧ after.medium = volume.medium) fun _ _ => False := by
  simp only [callWrite, Faults.next, h.writes, ends_bind, ends_get, ends_set, Bool.false_eq_true,
    if_false, ends_pure, and_true]
  exact h.of_medium rfl rfl rfl

/-- A read gives the stored bytes of the page; it fails exactly if there is no such page. -/
theorem ends_readPage (h : volume.Reliable pageSize) (table : UInt32) (id : PageId) :
    Ends (readPage pageSize table id) volume
      (fun page after => after.Reliable pageSize ∧ after.medium = volume.medium ∧
        ∃ data, volume.stored? pageSize id.index.toNat = some data ∧ page = Page.load id data)
      (fun _ after => after.Reliable pageSize ∧ after.medium = volume.medium ∧
        volume.stored? pageSize id.index.toNat = none) := by
  unfold readPage
  refine (ends_callRead h).bind ?_ fun _ _ => False.elim
  rintro _ called ⟨hcalled, hmedium⟩
  rw [ends_bind, ends_get]
  cases hfile : called.medium with
  | file file =>
      rw [hfile] at hmedium
      simp only [ends_bind, ends_lift, stored?, ← hmedium]
      unfold File.pageCount
      by_cases hsize : pageSize = 0
      · subst hsize
        simp [hfile, hcalled]
      · by_cases hbehind : file.length / pageSize ≤ id.index.toNat
        · simp [hsize, hbehind, hfile, hcalled, ends_bind, Nat.not_lt.2 hbehind]
        · simp only [hsize, if_false, Except.ok.injEq, forall_eq', hbehind, reduceCtorEq,
            false_implies, implies_true, and_true, ends_lift, Page.ofBytes, File.length_read,
            if_true]
          exact ⟨hcalled, hfile, _, if_pos (Nat.lt_of_not_le hbehind), rfl⟩
  | memory pages =>
      rw [hfile] at hmedium
      cases hpage : pages[id.index.toNat]? with
      | none => simp [stored?, ← hmedium, hpage, hcalled, hfile]
      | some data =>
          have hdata : volume.stored? pageSize id.index.toNat = some data := by
            simp [stored?, ← hmedium, hpage]
          have hlength := h.length_eq _ _ hdata
          simp only [hpage, ends_bind, ends_set, ends_lift, Page.ofBytes, hlength, if_true,
            Except.ok.injEq, forall_eq', reduceCtorEq, false_implies, implies_true, and_true, hdata,
            Option.some.injEq, exists_eq_left']
          exact ⟨hcalled.of_medium hfile.symm rfl rfl, hmedium⟩

/-- The pages of a file lie side by side, so a write of one of them reads back and leaves the bytes
of all others alone. -/
theorem read_write_page (file : File) {data : Bytes} (hlength : data.length = pageSize)
    (index other : Nat) :
    (file.write (index * pageSize) data).read (other * pageSize) pageSize =
      if other = index then data else file.read (other * pageSize) pageSize := by
  apply List.ext_getElem
  · split <;> simp [hlength]
  intro i hi _
  have hin : i < pageSize := by rwa [File.length_read] at hi
  simp only [File.read, List.getElem_map, List.getElem_range, File.byte_write, hlength]
  by_cases hsame : other = index
  · subst hsame
    have hdata : i < data.length := by rwa [hlength]
    simp [hin, List.getElem?_eq_getElem hdata]
  · have houtside : ¬(index * pageSize ≤ other * pageSize + i ∧
        other * pageSize + i < index * pageSize + pageSize) := by
      rintro ⟨hle, hlt⟩
      rcases Nat.lt_or_gt_of_ne hsame with h | h
      · have := Nat.mul_le_mul_right pageSize h
        rw [Nat.succ_mul] at this
        omega
      · have := Nat.mul_le_mul_right pageSize h
        rw [Nat.succ_mul] at this
        omega
    simp [houtside, hsame]

theorem length_write (file : File) (offset : Nat) {data : Bytes} (hdata : data ≠ []) :
    (file.write offset data).length = max file.length (offset + data.length) := by
  simp [File.write, hdata]

/-- What a file holds after a page has been written over one that it has, or right behind its last
one. -/
theorem stored?_file_write (after : Volume) {file : File} {data : Bytes}
    (hmedium : volume.medium = .file file) {index : Nat}
    (hafter : after.medium = .file (file.write (index * pageSize) data))
    (hsize : 0 < pageSize) (hlength : data.length = pageSize)
    (hindex : index ≤ file.length / pageSize) (other : Nat) :
    after.stored? pageSize other =
      if other = index then some data else volume.stored? pageSize other := by
  have hdata : data ≠ [] := List.ne_nil_of_length_pos (by omega)
  have hcount : other < (file.write (index * pageSize) data).length / pageSize ↔
      other = index ∨ other < file.length / pageSize := by
    rw [length_write file _ hdata, hlength, Nat.lt_iff_add_one_le, Nat.le_div_iff_mul_le hsize,
      Nat.lt_iff_add_one_le, Nat.le_div_iff_mul_le hsize, Nat.succ_mul]
    rw [Nat.le_div_iff_mul_le hsize] at hindex
    constructor
    · intro h
      rcases Nat.lt_or_ge file.length (other * pageSize + pageSize) with hlt | hge
      · have hle : other * pageSize ≤ index * pageSize := by omega
        have := Nat.le_of_mul_le_mul_right hle hsize
        rcases Nat.lt_or_eq_of_le this with hless | heq
        · have := Nat.mul_le_mul_right pageSize hless
          rw [Nat.succ_mul] at this
          omega
        · exact .inl heq
      · exact .inr hge
    · rintro (rfl | h) <;> omega
  simp only [stored?, hmedium, hafter, hcount, read_write_page file hlength]
  by_cases hsame : other = index <;> simp [hsame]

theorem ends_writeAt (h : volume.Reliable pageSize) {index : Nat} {old data : Bytes}
    (hold : volume.stored? pageSize index = some old) (hlength : data.length = pageSize) :
    Ends (writeAt pageSize index data) volume
      (fun _ after => after.Reliable pageSize ∧ ∀ other, after.stored? pageSize other =
        if other = index then some data else volume.stored? pageSize other)
      fun _ _ => False := by
  have hreliable : ∀ {written after : Volume}, written.Reliable pageSize →
      after.readFaults.fails = written.readFaults.fails →
      after.writeFaults.fails = written.writeFaults.fails →
      (∀ other, after.stored? pageSize other =
        if other = index then some data else volume.stored? pageSize other) →
      after.Reliable pageSize := by
    intro written after hwritten hreads hwrites hstored
    refine hwritten.congr hreads hwrites fun other bytes hbytes => ?_
    rw [hstored] at hbytes
    split at hbytes
    · rwa [← Option.some.inj hbytes]
    · exact h.length_eq other bytes hbytes
  unfold writeAt
  simp only [ends_bind, ends_get]
  cases hmedium : volume.medium with
  | file file =>
      simp only [stored?, hmedium] at hold
      obtain ⟨hindex, _⟩ := Option.ite_none_right_eq_some.1 hold
      have hsize : 0 < pageSize := Nat.pos_of_ne_zero fun hzero => by simp [hzero] at hindex
      have hdata : data ≠ [] := List.ne_nil_of_length_pos (by omega)
      simp only [ne_eq, hdata, not_false_eq_true, if_true]
      refine (ends_callWrite h).bind ?_ fun _ _ => False.elim
      rintro _ called ⟨hcalled, hsame⟩
      rw [ends_modify]
      have hstored := stored?_file_write { called with
        medium := .file (file.write (index * pageSize) data) } hmedium rfl hsize hlength
        (Nat.le_of_lt hindex)
      exact ⟨hreliable hcalled rfl rfl hstored, hstored⟩
  | memory pages =>
      simp only [stored?, hmedium] at hold
      obtain ⟨hindex, _⟩ := List.getElem?_eq_some_iff.1 hold
      refine (ends_callWrite h).bind ?_ fun _ _ => False.elim
      rintro _ called ⟨hcalled, hsame⟩
      simp only [hindex, if_true, ends_modify]
      have hstored : ∀ other, Volume.stored? { called with
          medium := .memory (pages.set index data), writes := called.writes + 1 } pageSize other =
            if other = index then some data else volume.stored? pageSize other := by
        intro other
        simp only [stored?, hmedium, List.getElem?_set, @eq_comm _ index, hindex, if_true]
      exact ⟨hreliable hcalled rfl rfl hstored, hstored⟩

theorem ends_writePage (h : volume.Reliable pageSize) (page : Page) {old : Bytes}
    (hold : volume.stored? pageSize page.id.index.toNat = some old)
    (hlength : page.data.length = pageSize) :
    Ends (writePage pageSize page) volume
      (fun _ after => after.Reliable pageSize ∧ ∀ other, after.stored? pageSize other =
        if other = page.id.index.toNat then some page.data else volume.stored? pageSize other)
      fun _ _ => False :=
  ends_writeAt h hold hlength

/-- An append adds a page of zeros under the next number; if it fails, nothing has changed. -/
theorem ends_appendPage (h : volume.Reliable pageSize) (hroom : volume.HasRoom pageSize) :
    Ends (appendPage pageSize) volume
      (fun index after => after.Reliable pageSize ∧
        volume.stored? pageSize index.toNat = none ∧ ∀ other, after.stored? pageSize other =
          if other = index.toNat then some (Bytes.zeros pageSize)
          else volume.stored? pageSize other)
      fun _ after => after.Reliable pageSize ∧
        ∀ other, after.stored? pageSize other = volume.stored? pageSize other := by
  have hzeros : (Bytes.zeros pageSize).length = pageSize := List.length_replicate
  unfold appendPage
  rw [ends_bind, ends_get, ends_bind, ends_lift]
  refine ⟨fun count hcount => ?_, fun _ _ => ⟨h, fun _ => rfl⟩⟩
  have hindex : (UInt32.ofNat count).toNat = count :=
    UInt32.toNat_ofNat_of_lt' (hroom count hcount)
  unfold writeAt
  rw [ends_bind, ends_bind, ends_get, hindex]
  unfold pageCount at hcount
  cases hmedium : volume.medium with
  | file file =>
      simp only [hmedium, File.pageCount] at hcount
      split at hcount
      · cases hcount
      rename_i hsize
      replace hcount : file.length / pageSize = count := Except.ok.inj hcount
      have hpos : 0 < pageSize := Nat.pos_of_ne_zero hsize
      have hdata : Bytes.zeros pageSize ≠ [] := List.ne_nil_of_length_pos (by omega)
      simp only [ne_eq, hdata, not_false_eq_true, if_true]
      refine (ends_callWrite h).bind ?_ fun _ _ => False.elim
      rintro _ called ⟨hcalled, hsame⟩
      have hstored := stored?_file_write { called with
        medium := .file (file.write (count * pageSize) (Bytes.zeros pageSize)) } hmedium rfl hpos
        hzeros (Nat.le_of_eq hcount.symm)
      rw [ends_modify, ends_pure, hindex]
      refine ⟨hcalled.congr rfl rfl fun index data hdata => ?_, ?_, hstored⟩
      · exact length_of_stored rfl hdata
      · simp [stored?, hmedium, hcount]
  | memory pages =>
      simp only [hmedium, Except.ok.injEq] at hcount
      refine (ends_callWrite h).bind ?_ fun _ _ => False.elim
      rintro _ called ⟨hcalled, hsame⟩
      simp only [← hcount, Nat.lt_irrefl, if_false, ends_throw]
      exact ⟨hcalled, stored?_congr hsame⟩

/-- Whatever becomes of a call, the volume keeps its pages, and stays reliable if it was. -/
structure Lasts (pageSize : Nat) (before after : Volume) : Prop where
  reliable : before.Reliable pageSize → after.Reliable pageSize
  isSome_stored : ∀ {index}, (before.stored? pageSize index).isSome →
    (after.stored? pageSize index).isSome

theorem Lasts.refl (volume : Volume) : volume.Lasts pageSize volume :=
  ⟨fun h => h, fun h => h⟩

theorem Lasts.of_medium (hmedium : after.medium = volume.medium)
    (hreads : after.readFaults.fails = volume.readFaults.fails)
    (hwrites : after.writeFaults.fails = volume.writeFaults.fails) :
    volume.Lasts pageSize after where
  reliable h := h.of_medium hmedium hreads hwrites
  isSome_stored h := by rwa [stored?_congr hmedium]

theorem isSome_stored?_file (after : Volume) {file written : File} {index : Nat}
    (hmedium : volume.medium = .file file) (hafter : after.medium = .file written)
    (hlength : file.length ≤ written.length) (h : (volume.stored? pageSize index).isSome) :
    (after.stored? pageSize index).isSome := by
  have hle : file.length / pageSize ≤ written.length / pageSize := Nat.div_le_div_right hlength
  simp only [stored?, hmedium] at h
  split at h
  · next hindex =>
    simp only [stored?, hafter]
    rw [if_pos (Nat.lt_of_lt_of_le hindex hle)]
    rfl
  · cases h

theorem ends_callRead_lasts (volume : Volume) (pageSize : Nat) :
    Ends callRead volume
      (fun _ after => volume.Lasts pageSize after ∧ after.medium = volume.medium)
      (fun _ after => volume.Lasts pageSize after ∧ after.medium = volume.medium) := by
  unfold callRead Faults.next
  rw [ends_bind, ends_get]
  dsimp only
  rw [ends_bind, ends_set]
  split
  · exact ⟨.of_medium rfl rfl rfl, rfl⟩
  · exact ⟨.of_medium rfl rfl rfl, rfl⟩

theorem ends_callWrite_lasts (volume : Volume) (pageSize : Nat) :
    Ends callWrite volume
      (fun _ after => volume.Lasts pageSize after ∧ after.medium = volume.medium)
      (fun _ after => volume.Lasts pageSize after ∧ after.medium = volume.medium) := by
  unfold callWrite Faults.next
  rw [ends_bind, ends_get]
  dsimp only
  rw [ends_bind, ends_set]
  split
  · exact ⟨.of_medium rfl rfl rfl, rfl⟩
  · exact ⟨.of_medium rfl rfl rfl, rfl⟩

/-- A read changes no page, and what it gives has the length of a page. -/
theorem ends_readPage_lasts (volume : Volume) (pageSize : Nat) (table : UInt32) (id : PageId) :
    Ends (readPage pageSize table id) volume
      (fun page after => volume.Lasts pageSize after ∧ after.medium = volume.medium ∧
        ∃ data, volume.stored? pageSize id.index.toNat = some data ∧ data.length = pageSize ∧
          page = Page.load id data)
      (fun _ after => volume.Lasts pageSize after ∧ after.medium = volume.medium) := by
  unfold readPage
  refine (volume.ends_callRead_lasts pageSize).bind ?_ fun _ _ h => h
  intro _ called hcalled
  obtain ⟨hlasts, hmedium⟩ := hcalled
  rw [ends_bind, ends_get]
  cases hfile : called.medium with
  | file file =>
      simp only [ends_bind, ends_lift]
      refine ⟨fun count hcount => ?_, fun _ _ => ⟨hlasts, hmedium⟩⟩
      split
      · exact ⟨hlasts, hmedium⟩
      · next hindex =>
        rw [ends_lift]
        refine ⟨fun page hpage => ⟨hlasts, hmedium, file.read (id.index.toNat * pageSize) pageSize,
          ?_, File.length_read .., ?_⟩, fun _ _ => ⟨hlasts, hmedium⟩⟩
        · unfold File.pageCount at hcount
          split at hcount
          · cases hcount
          · cases hcount
            simp only [stored?, ← hmedium, hfile]
            exact if_pos (Nat.lt_of_not_le hindex)
        · unfold Page.ofBytes at hpage
          rw [if_pos (File.length_read ..)] at hpage
          exact (Except.ok.inj hpage).symm
  | memory pages =>
      dsimp only
      cases hpage : pages[id.index.toNat]? with
      | none => exact ⟨hlasts, hmedium⟩
      | some data =>
          dsimp only
          rw [ends_bind, ends_set, ends_lift, ← hfile]
          have hread : volume.Lasts pageSize { called with reads := called.reads + 1 } :=
            ⟨fun h => (hlasts.reliable h).of_medium rfl rfl rfl, fun h => hlasts.isSome_stored h⟩
          refine ⟨fun page hloaded => ⟨hread, hmedium, data, ?_, ?_⟩,
            fun _ _ => ⟨hread, hmedium⟩⟩
          · simp only [stored?, ← hmedium, hfile, hpage]
          · unfold Page.ofBytes at hloaded
            split at hloaded
            · next hlength => exact ⟨hlength, (Except.ok.inj hloaded).symm⟩
            · cases hloaded

/-- A write of a whole page, wherever it goes. -/
theorem ends_writeAt_lasts (volume : Volume) {index : Nat} {data : Bytes}
    (hlength : data.length = pageSize) :
    Ends (writeAt pageSize index data) volume (fun _ after => volume.Lasts pageSize after)
      (fun _ after => volume.Lasts pageSize after) := by
  unfold writeAt
  rw [ends_bind, ends_get]
  cases hfile : volume.medium with
  | file file =>
      dsimp only
      split
      · next hdata =>
        refine (volume.ends_callWrite_lasts pageSize).bind ?_ fun _ _ hcalled => hcalled.1
        intro _ called hcalled
        obtain ⟨hlasts, hmedium⟩ := hcalled
        rw [ends_modify]
        refine ⟨fun h => (hlasts.reliable h).congr rfl rfl fun other bytes hbytes => ?_,
          fun h => ?_⟩
        · exact length_of_stored rfl hbytes
        · refine isSome_stored?_file _ hfile rfl ?_ h
          rw [length_write file _ hdata]
          exact Nat.le_max_left ..
      · exact .refl volume
  | memory pages =>
      dsimp only
      refine (volume.ends_callWrite_lasts pageSize).bind ?_ fun _ _ hcalled => hcalled.1
      intro _ called hcalled
      obtain ⟨hlasts, hmedium⟩ := hcalled
      split
      · rw [ends_modify]
        refine ⟨fun h => (hlasts.reliable h).congr rfl rfl fun other bytes hbytes => ?_,
          fun h => ?_⟩
        · simp only [stored?, List.getElem?_set] at hbytes
          split at hbytes
          · rwa [← Option.some.inj hbytes]
          · exact h.length_eq other bytes (by simpa only [stored?, hfile] using hbytes)
        · simp only [stored?, hfile, List.getElem?_set] at h ⊢
          split <;> simp_all
      · exact hlasts

theorem ends_appendPage_lasts (volume : Volume) (pageSize : Nat) :
    Ends (appendPage pageSize) volume (fun _ after => volume.Lasts pageSize after)
      (fun _ after => volume.Lasts pageSize after) := by
  unfold appendPage
  rw [ends_bind, ends_get, ends_bind, ends_lift]
  refine ⟨fun count _ => ?_, fun _ _ => .refl volume⟩
  refine (volume.ends_writeAt_lasts (List.length_replicate ..)).bind ?_ fun _ _ h => h
  intro _ after hafter
  exact hafter

/-- The file of the volume has got a page of zeros behind its whole pages. Bytes behind these, which
belonged to no page, are gone. -/
def Grown (pageSize : Nat) (before after : Volume) : Prop :=
  ∃ file grown, before.medium = .file file ∧ after.medium = .file grown ∧
    grown.length = (file.length / pageSize + 1) * pageSize ∧
    ∀ i, grown.byte i = if i < file.length / pageSize * pageSize then file.byte i else 0

theorem HasRoom.congr (h : volume.HasRoom pageSize) (hmedium : after.medium = volume.medium) :
    after.HasRoom pageSize := by
  intro count hcount
  refine h count ?_
  unfold pageCount at hcount ⊢
  rwa [hmedium] at hcount

theorem Grown.congr {middle : Volume} (h : middle.Grown pageSize after)
    (hmedium : middle.medium = volume.medium) : volume.Grown pageSize after := by
  obtain ⟨file, grown, hfile, hgrown⟩ := h
  exact ⟨file, grown, hmedium.symm.trans hfile, hgrown⟩

/-- An append that does not come about leaves the bytes as they are. -/
theorem ends_appendPage_grown (volume : Volume) (pageSize : Nat) :
    Ends (appendPage pageSize) volume
      (fun _ after => volume.HasRoom pageSize → volume.Grown pageSize after)
      (fun _ after => after.medium = volume.medium) := by
  unfold appendPage
  rw [ends_bind, ends_get, ends_bind, ends_lift]
  refine ⟨fun count hcount => ?_, fun _ _ => rfl⟩
  have hindex : volume.HasRoom pageSize → (UInt32.ofNat count).toNat = count := fun hroom =>
    UInt32.toNat_ofNat_of_lt' (hroom count hcount)
  unfold writeAt
  rw [ends_bind, ends_bind, ends_get]
  unfold pageCount at hcount
  cases hmedium : volume.medium with
  | file file =>
      simp only [hmedium, File.pageCount] at hcount
      split at hcount
      · cases hcount
      next hsize =>
      have hcount : file.length / pageSize = count := Except.ok.inj hcount
      have hlength : (Bytes.zeros pageSize).length = pageSize := List.length_replicate
      have hdata : Bytes.zeros pageSize ≠ [] := by
        apply List.ne_nil_of_length_pos
        omega
      have hbehind : file.length < count * pageSize + pageSize := by
        rw [← hcount, ← Nat.succ_mul, Nat.mul_comm]
        exact Nat.lt_mul_div_succ file.length (Nat.pos_of_ne_zero hsize)
      dsimp only
      rw [if_pos hdata]
      refine (volume.ends_callWrite_lasts pageSize).bind ?_
        fun _ _ hcalled => hcalled.2.trans hmedium
      intro _ called _
      rw [ends_modify, ends_pure]
      intro hroom
      refine ⟨file, _, hmedium, rfl, ?_, fun i => ?_⟩
      · rw [hindex hroom, length_write file _ hdata, hlength, hcount, Nat.succ_mul]
        exact Nat.max_eq_right (Nat.le_of_lt hbehind)
      · rw [hindex hroom, File.byte_write, hlength, hcount]
        split
        · next hin =>
          have hzero : ∀ j, (Bytes.zeros pageSize).getD j 0 = 0 := fun j => by
            rw [Bytes.zeros, List.getD_eq_getElem?_getD, List.getElem?_replicate]
            split <;> rfl
          rw [if_neg (Nat.not_lt.2 hin.1), hzero]
        · next hout =>
          split
          · rfl
          · exact file.byte_eq_zero i (by omega)
  | memory pages =>
      have hcount : pages.length = count := by simpa [hmedium] using hcount
      refine (volume.ends_callWrite_lasts pageSize).bind ?_
        fun _ _ hcalled => hcalled.2.trans hmedium
      intro _ called hcalled
      split
      · rw [ends_modify, ends_pure]
        intro hroom
        rw [hindex hroom] at *
        omega
      · exact hcalled.2.trans hmedium

end Volume

end PagePool
