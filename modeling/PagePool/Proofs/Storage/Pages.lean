import PagePool.Proofs.Storage.Volume

/-!
# A file as an array of pages

The whole pages of a file are an array: a page is read if it has an index in the array, a write
replaces one entry, and an append adds one. Bytes behind the last whole page are in no entry, and
an append puts its page in their place. The array grows as long as 32 bits count its entries; an
append to a longer one hits the entry that the low bits of the count name.
-/

namespace PagePool

namespace File

/-- The whole pages of a file, in their order. -/
def pages (file : File) (pageSize : Nat) : List Bytes :=
  (List.range (file.length / pageSize)).map fun i => file.read (i * pageSize) pageSize

variable (file : File) {pageSize index : Nat} {data : Bytes}

@[simp]
theorem length_pages : (file.pages pageSize).length = file.length / pageSize := by
  simp [pages]

theorem pageCount_eq (hsize : 0 < pageSize) :
    file.pageCount pageSize = .ok (file.pages pageSize).length := by
  rw [pageCount, if_neg (Nat.ne_of_gt hsize), length_pages]

theorem getElem?_pages (i : Nat) :
    (file.pages pageSize)[i]? = if i < file.length / pageSize then
      some (file.read (i * pageSize) pageSize) else none := by
  split
  · next hi => simp [pages, hi]
  · next hi => exact List.getElem?_eq_none (by simpa using hi)

theorem getElem?_pages_write (hsize : 0 < pageSize) (hlength : data.length = pageSize)
    (hindex : index ≤ (file.pages pageSize).length) (i : Nat) :
    ((file.write (index * pageSize) data).pages pageSize)[i]? =
      if i = index then some data else (file.pages pageSize)[i]? := by
  rw [length_pages] at hindex
  rw [getElem?_pages, getElem?_pages]
  exact @Volume.stored?_file_write (.ofMedium (.file file)) pageSize
    (.ofMedium (.file (file.write (index * pageSize) data))) file data rfl index rfl hsize hlength
    hindex i

/-- A write of a page that a file has replaces this page. -/
theorem pages_write_of_lt (hsize : 0 < pageSize) (hlength : data.length = pageSize)
    (hindex : index < (file.pages pageSize).length) :
    (file.write (index * pageSize) data).pages pageSize =
      (file.pages pageSize).set index data := by
  apply List.ext_getElem?
  intro i
  rw [getElem?_pages_write file hsize hlength (Nat.le_of_lt hindex), List.getElem?_set]
  by_cases hi : i = index
  · subst hi
    rw [if_pos rfl, if_pos rfl, if_pos hindex]
  · rw [if_neg hi, if_neg (Ne.symm hi)]

/-- A write right behind the last whole page adds a page, also over bytes that were in none. -/
theorem pages_write_behind (hsize : 0 < pageSize) (hlength : data.length = pageSize) :
    (file.write ((file.pages pageSize).length * pageSize) data).pages pageSize =
      file.pages pageSize ++ [data] := by
  apply List.ext_getElem?
  intro i
  rw [getElem?_pages_write file hsize hlength (Nat.le_refl _)]
  rcases Nat.lt_trichotomy i (file.pages pageSize).length with hlt | heq | hgt
  · rw [if_neg (Nat.ne_of_lt hlt), List.getElem?_append_left hlt]
  · rw [if_pos heq, heq, List.getElem?_concat_length]
  · rw [if_neg (Nat.ne_of_gt hgt), List.getElem?_eq_none (Nat.le_of_lt hgt),
      List.getElem?_eq_none (by rwa [List.length_append])]

end File

namespace Volume

/-- The volume is a file that consists of these pages, and of bytes that are no whole page. -/
def Holds (volume : Volume) (pageSize : Nat) (pages : List Bytes) : Prop :=
  ∃ file, volume.medium = .file file ∧ file.pages pageSize = pages

/-- The plan of the volume has the next read fail. -/
def RefusesRead (volume : Volume) : Prop :=
  volume.readFaults.next.1 = true

def RefusesWrite (volume : Volume) : Prop :=
  volume.writeFaults.next.1 = true

/-- What the calls on a volume make of its pages. They fail for the reasons that are named, and a
call that fails has changed none of the pages. -/
structure Indexed (volume : Volume) (pageSize : Nat) (pages : List Bytes) : Prop where
  count : volume.pageCount pageSize = .ok pages.length
  read : ∀ table id, Ends (readPage pageSize table id) volume
    (fun page after => after.Holds pageSize pages ∧
      ∃ data, pages[id.index.toNat]? = some data ∧ page = Page.load id data)
    (fun failure after => after.Holds pageSize pages ∧
      (volume.RefusesRead ∧ failure = .error (.io .readFailed) ∨
        pages.length ≤ id.index.toNat ∧ failure = .error (.beyondEnd id table)))
  reads_iff : ¬volume.RefusesRead → ∀ table id,
    (∃ page after, readPage pageSize table id volume = .ok page after) ↔
      id.index.toNat < pages.length
  write : ∀ page : Page, page.data.length = pageSize → page.id.index.toNat < pages.length →
    Ends (writePage pageSize page) volume
      (fun _ after => after.Holds pageSize (pages.set page.id.index.toNat page.data))
      (fun failure after => after.Holds pageSize pages ∧
        volume.RefusesWrite ∧ failure = .error (.io .noSpace))
  /-- What has been written is read back, under the number of any table. -/
  reread : ∀ (page : Page) table, page.data.length = pageSize →
    page.id.index.toNat < pages.length → ¬volume.RefusesWrite → ¬volume.RefusesRead →
    Ends (do writePage pageSize page; readPage pageSize table page.id) volume
      (fun read after => read = Page.load page.id page.data ∧
        after.Holds pageSize (pages.set page.id.index.toNat page.data))
      fun _ _ => False
  append : pages.length < UInt32.size → Ends (appendPage pageSize) volume
    (fun index after => index.toNat = pages.length ∧
      after.Holds pageSize (pages ++ [Bytes.zeros pageSize]))
    (fun failure after => after.Holds pageSize pages ∧
      volume.RefusesWrite ∧ failure = .error (.io .noSpace))
  /-- No index is left: the append clears a page that is there, and adds none. -/
  wraps : UInt32.size ≤ pages.length → Ends (appendPage pageSize) volume
    (fun index after => index.toNat = pages.length % UInt32.size ∧
      after.Holds pageSize (pages.set index.toNat (Bytes.zeros pageSize)))
    (fun failure after => after.Holds pageSize pages ∧
      volume.RefusesWrite ∧ failure = .error (.io .noSpace))

section Calls

variable {volume : Volume} {file : File} {pageSize index : Nat} {pages : List Bytes} {data : Bytes}

theorem ends_callRead_exact (volume : Volume) :
    Ends callRead volume
      (fun _ after => ¬volume.RefusesRead ∧ after.medium = volume.medium)
      (fun failure after => volume.RefusesRead ∧ failure = .error (.io .readFailed) ∧
        after.medium = volume.medium) := by
  unfold callRead RefusesRead
  simp only [ends_bind, ends_get, ends_set]
  split
  · next hrefuses => exact ⟨hrefuses, rfl, rfl⟩
  · next haccepts => exact ⟨haccepts, rfl⟩

/-- A write leaves the plan for reads as it is. -/
theorem ends_callWrite_exact (volume : Volume) :
    Ends callWrite volume
      (fun _ after => after.readFaults = volume.readFaults)
      (fun failure after => volume.RefusesWrite ∧ failure = .error volume.writeError ∧
        after.medium = volume.medium) := by
  unfold callWrite RefusesWrite
  simp only [ends_bind, ends_get, ends_set]
  split
  · next hrefuses => exact ⟨hrefuses, rfl, rfl⟩
  · rfl

theorem Holds.pageCount (h : volume.Holds pageSize pages) (hsize : 0 < pageSize) :
    volume.pageCount pageSize = .ok pages.length := by
  obtain ⟨file, hfile, rfl⟩ := h
  rw [Volume.pageCount, hfile]
  exact file.pageCount_eq hsize

theorem Holds.congr {after : Volume} (h : volume.Holds pageSize pages)
    (hmedium : after.medium = volume.medium) : after.Holds pageSize pages := by
  obtain ⟨file, hfile, hpages⟩ := h
  exact ⟨file, hmedium.trans hfile, hpages⟩

variable (h : volume.Holds pageSize pages) (hsize : 0 < pageSize)
include h hsize

theorem Holds.ends_readPage (table : UInt32) (id : PageId) :
    Ends (readPage pageSize table id) volume
      (fun page after => ¬volume.RefusesRead ∧ after.Holds pageSize pages ∧
        ∃ data, pages[id.index.toNat]? = some data ∧ page = Page.load id data)
      (fun failure after => after.Holds pageSize pages ∧
        (volume.RefusesRead ∧ failure = .error (.io .readFailed) ∨
          pages.length ≤ id.index.toNat ∧ failure = .error (.beyondEnd id table))) := by
  unfold readPage
  refine (ends_callRead_exact volume).bind ?_ fun failure after ⟨hrefuses, hfailure, hmedium⟩ =>
    ⟨h.congr hmedium, .inl ⟨hrefuses, hfailure⟩⟩
  rintro _ called ⟨haccepts, hmedium⟩
  have hcalled := h.congr hmedium
  obtain ⟨file, hfile, hpages⟩ := hcalled
  rw [ends_bind, ends_get, hfile]
  simp only [ends_bind, ends_lift, file.pageCount_eq hsize, hpages, Except.ok.injEq, forall_eq',
    reduceCtorEq, false_implies, implies_true, and_true]
  split
  · next hbehind => exact ⟨⟨file, hfile, hpages⟩, .inr ⟨hbehind, rfl⟩⟩
  · next hindex =>
    simp only [ends_lift, Page.ofBytes, File.length_read, if_true, Except.ok.injEq, forall_eq',
      reduceCtorEq, false_implies, implies_true, and_true]
    refine ⟨haccepts, ⟨file, hfile, hpages⟩, file.read (id.index.toNat * pageSize) pageSize, ?_,
      rfl⟩
    rw [← hpages, File.length_pages, Nat.not_le] at hindex
    rw [← hpages, File.getElem?_pages, if_pos hindex]

/-- A page goes over one that is there, or right behind the last. -/
theorem Holds.ends_writeAt (hlength : data.length = pageSize) (hindex : index ≤ pages.length) :
    Ends (writeAt pageSize index data) volume
      (fun _ after => after.readFaults = volume.readFaults ∧ after.Holds pageSize
        (if index = pages.length then pages ++ [data] else pages.set index data))
      (fun failure after => after.Holds pageSize pages ∧
        volume.RefusesWrite ∧ failure = .error (.io .noSpace)) := by
  obtain ⟨file, hfile, rfl⟩ := h
  have hdata : data ≠ [] := List.ne_nil_of_length_pos (by omega)
  unfold writeAt
  rw [ends_bind, ends_get, hfile]
  dsimp only
  rw [if_pos hdata]
  refine (ends_callWrite_exact volume).bind ?_ fun failure after ⟨hrefuses, hfailure, hmedium⟩ =>
    ⟨⟨file, hmedium.trans hfile, rfl⟩, hrefuses, ?_⟩
  · intro _ called hcalled
    rw [ends_modify]
    refine ⟨hcalled, _, rfl, ?_⟩
    split
    · next heq =>
      rw [heq]
      exact file.pages_write_behind hsize hlength
    · next hne => exact file.pages_write_of_lt hsize hlength (Nat.lt_of_le_of_ne hindex hne)
  · rw [hfailure, writeError, hfile]

theorem Holds.ends_writePage (page : Page) (hlength : page.data.length = pageSize)
    (hindex : page.id.index.toNat < pages.length) :
    Ends (writePage pageSize page) volume
      (fun _ after => after.readFaults = volume.readFaults ∧
        after.Holds pageSize (pages.set page.id.index.toNat page.data))
      (fun failure after => after.Holds pageSize pages ∧
        volume.RefusesWrite ∧ failure = .error (.io .noSpace)) := by
  have hends := h.ends_writeAt hsize hlength (Nat.le_of_lt hindex)
  rwa [if_neg (Nat.ne_of_lt hindex)] at hends

theorem Holds.ends_appendPage :
    Ends (appendPage pageSize) volume
      (fun index after => index.toNat = pages.length % UInt32.size ∧
        after.Holds pageSize (if index.toNat = pages.length then pages ++ [Bytes.zeros pageSize]
          else pages.set index.toNat (Bytes.zeros pageSize)))
      (fun failure after => after.Holds pageSize pages ∧
        volume.RefusesWrite ∧ failure = .error (.io .noSpace)) := by
  have hindex : (UInt32.ofNat pages.length).toNat ≤ pages.length := by
    rw [UInt32.toNat_ofNat']
    exact Nat.mod_le ..
  unfold appendPage
  simp only [ends_bind, ends_get, ends_lift, h.pageCount hsize, Except.ok.injEq, forall_eq',
    reduceCtorEq, false_implies, implies_true, and_true]
  refine (h.ends_writeAt hsize List.length_replicate hindex).mono ?_ fun _ _ hrefused => hrefused
  rintro _ after ⟨_, hafter⟩
  exact ⟨UInt32.toNat_ofNat', hafter⟩

end Calls

/-- **A file is an array of its whole pages**, whatever bytes are behind them and whichever calls
are made to fail. -/
theorem file_indexed {volume : Volume} {file : File} {pageSize : Nat} (hsize : 0 < pageSize)
    (hfile : volume.medium = .file file) : volume.Indexed pageSize (file.pages pageSize) := by
  have h : volume.Holds pageSize (file.pages pageSize) := ⟨file, hfile, rfl⟩
  refine {
    count := h.pageCount hsize
    read := fun table id => (h.ends_readPage hsize table id).mono (fun _ _ hread => hread.2)
      fun _ _ hfails => hfails
    reads_iff := ?reads_iff
    write := fun page hlength hindex => (h.ends_writePage hsize page hlength hindex).mono
      (fun _ _ hwritten => hwritten.2) fun _ _ hfails => hfails
    reread := ?reread
    append := ?append
    wraps := ?wraps }
  case reads_iff =>
    intro haccepts table id
    have hends := h.ends_readPage hsize table id
    constructor
    · rintro ⟨page, after, hread⟩
      obtain ⟨_, _, data, hdata, _⟩ := hends.of_ok hread
      exact (List.getElem?_eq_some_iff.1 hdata).1
    · intro hindex
      cases hread : readPage pageSize table id volume with
      | ok page after => exact ⟨page, after, rfl⟩
      | error failure after =>
          obtain ⟨_, ⟨hrefuses, _⟩ | ⟨hbehind, _⟩⟩ := hends.of_error hread
          · exact absurd hrefuses haccepts
          · omega
  case reread =>
    intro page table hlength hindex hwrite hread
    refine (h.ends_writePage hsize page hlength hindex).bind ?_
      fun _ _ hfails => hwrite hfails.2.1
    rintro _ written ⟨hplan, hwritten⟩
    refine (hwritten.ends_readPage hsize table page.id).mono ?_ ?_
    · rintro read after ⟨_, hafter, data, hdata, rfl⟩
      rw [List.getElem?_set_self hindex] at hdata
      exact ⟨by rw [Option.some.inj hdata], hafter⟩
    · rintro failure after ⟨_, ⟨hrefuses, _⟩ | ⟨hbehind, _⟩⟩
      · exact hread (by rwa [RefusesRead, hplan] at hrefuses)
      · rw [List.length_set] at hbehind
        omega
  case append =>
    intro hroom
    refine (h.ends_appendPage hsize).mono ?_ fun _ _ hfails => hfails
    rintro index after ⟨hindex, hafter⟩
    rw [Nat.mod_eq_of_lt hroom] at hindex
    rw [if_pos hindex] at hafter
    exact ⟨hindex, hafter⟩
  case wraps =>
    intro hfull
    refine (h.ends_appendPage hsize).mono ?_ fun _ _ hfails => hfails
    rintro index after ⟨hindex, hafter⟩
    have hlow : index.toNat < UInt32.size := index.toNat_lt_size
    rw [if_neg (by omega)] at hafter
    exact ⟨hindex, hafter⟩

/-- Two pages of two bytes and one byte more. -/
theorem file_indexed_ragged :
    0 < 2 ∧ (ofMedium (.file (.ofBytes [1, 2, 3, 4, 5]))).medium =
        .file (.ofBytes [1, 2, 3, 4, 5]) ∧
      (ofMedium (.file (.ofBytes [1, 2, 3, 4, 5]))).Indexed 2 [[1, 2], [3, 4]] := by
  have hpages : (File.ofBytes [1, 2, 3, 4, 5]).pages 2 = [[1, 2], [3, 4]] := by decide
  exact ⟨by decide, rfl, hpages ▸ file_indexed (by decide) rfl⟩

end Volume

/-- As many bytes as there are page indexes, with a seven in front. -/
def File.brimming : File where
  length := UInt32.size
  byte i := if i = 0 then 7 else 0
  byte_eq_zero i hbehind := if_neg fun hzero => by
    rw [hzero] at hbehind
    exact absurd hbehind (by decide)

namespace Volume

/-- An append to a file of 2^32 pages gives the index of the first page, which it clears; the file
has no page more than before. -/
theorem append_overwrites :
    ∃ after, appendPage 1 (ofMedium (.file .brimming)) = .ok 0 after ∧
      (ofMedium (.file .brimming)).pageCount 1 = .ok UInt32.size ∧
      after.pageCount 1 = .ok UInt32.size ∧
      (ofMedium (.file .brimming)).stored? 1 0 = some [7] ∧ after.stored? 1 0 = some [0] :=
  ⟨_, rfl, rfl, rfl, rfl, rfl⟩

end Volume

end PagePool
