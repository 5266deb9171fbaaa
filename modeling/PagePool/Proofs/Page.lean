import PagePool.Layout
import PagePool.Proofs.Ends

/-!
# What a writer does to a page

Whoever writes a page on behalf of a transaction leaves it touched by the transaction, with other
bytes of the same length. A step that fails may leave the page alone.
-/

namespace PagePool

namespace Bytes

variable {bytes chunk after : Bytes} {offset : Nat}

theorem length_splice (h : splice bytes offset chunk = .ok after) :
    after.length = bytes.length := by
  unfold splice at h
  split at h
  · cases h
    simp only [List.length_append, List.length_take, List.length_drop]
    omega
  · cases h

/-- The bytes after a write that changes nothing if the chunk does not fit in. -/
def overwrite (bytes : Bytes) (offset : Nat) (chunk : Bytes) : Bytes :=
  match splice bytes offset chunk with
  | .ok after => after
  | .error _ => bytes

theorem length_overwrite (bytes : Bytes) (offset : Nat) (chunk : Bytes) :
    (bytes.overwrite offset chunk).length = bytes.length := by
  unfold overwrite
  split
  · next hspliced => exact length_splice hspliced
  · rfl

theorem getElem?_overwrite (h : offset + chunk.length ≤ bytes.length) (i : Nat) :
    (bytes.overwrite offset chunk)[i]? =
      if offset ≤ i ∧ i < offset + chunk.length then chunk[i - offset]? else bytes[i]? := by
  have hspliced : bytes.overwrite offset chunk =
      bytes.take offset ++ (chunk ++ bytes.drop (offset + chunk.length)) := by
    simp only [overwrite, splice, if_pos h]
  have hlength : (bytes.take offset).length = offset := by
    rw [List.length_take]
    omega
  rw [hspliced]
  rcases Nat.lt_or_ge i offset with hbefore | hfrom
  · rw [List.getElem?_append_left (by omega), List.getElem?_take_of_lt hbefore,
      if_neg fun hin => absurd hin.1 (Nat.not_le_of_lt hbefore)]
  · rw [List.getElem?_append_right (by omega), hlength]
    rcases Nat.lt_or_ge i (offset + chunk.length) with hin | hbehind
    · rw [List.getElem?_append_left (by omega), if_pos ⟨hfrom, hin⟩]
    · rw [List.getElem?_append_right (by omega), List.getElem?_drop,
        if_neg fun hin => absurd hin.2 (Nat.not_lt_of_le hbehind)]
      congr 1
      omega

theorem length_setBit (bytes : Bytes) (i : Nat) (value : Bool) :
    (bytes.setBit i value).length = bytes.length :=
  List.length_modify ..

end Bytes

namespace Page

/-- The page after one or more writes of a transaction. -/
def Rewritten (tx : TxId) (before after : Page) : Prop :=
  ∃ data, data.length = before.data.length ∧ after = (before.touch tx).withData data

variable {tx : TxId} {page before middle after : Page}

/-- The image is taken once. -/
theorem Rewritten.trans (h : before.Rewritten tx middle) (h' : middle.Rewritten tx after) :
    before.Rewritten tx after := by
  obtain ⟨first, hfirst, rfl⟩ := h
  obtain ⟨second, hsecond, rfl⟩ := h'
  exact ⟨second, hsecond.trans hfirst, rfl⟩

/-- The page after a write, whether the chunk fits in or not. -/
def overwritten (page : Page) (tx : TxId) (offset : Nat) (chunk : Bytes) : Page :=
  (page.touch tx).withData (page.data.overwrite offset chunk)

theorem rewritten_overwritten (page : Page) (tx : TxId) (offset : Nat) (chunk : Bytes) :
    page.Rewritten tx (page.overwritten tx offset chunk) :=
  ⟨_, Bytes.length_overwrite .., rfl⟩

theorem ends_write (tx : TxId) (offset : Nat) (chunk : Bytes) (page : Page) :
    Ends (write tx offset chunk) page (fun _ after => after = page.overwritten tx offset chunk)
      (fun _ after => after = page.overwritten tx offset chunk) := by
  unfold write overwritten Bytes.overwrite
  rw [ends_bind, ends_modify, ends_bind, ends_get, ends_bind, ends_lift]
  refine ⟨fun data hdata => ?_, fun failure hfailure => ?_⟩
  · have hspliced : Bytes.splice page.data offset chunk = .ok data := hdata
    rw [ends_set, hspliced]
  · have hspliced : Bytes.splice page.data offset chunk = .error failure := hfailure
    rw [hspliced]
    rfl

/-- A chunk that fits in is written. -/
theorem ends_write_of_le {offset : Nat} {chunk : Bytes}
    (h : offset + chunk.length ≤ page.data.length) :
    Ends (write tx offset chunk) page (fun _ after => after = page.overwritten tx offset chunk)
      fun _ _ => False := by
  unfold write overwritten Bytes.overwrite
  rw [ends_bind, ends_modify, ends_bind, ends_get, ends_bind, ends_lift]
  have hspliced : Bytes.splice page.data offset chunk =
      .ok (page.data.take offset ++ (chunk ++ page.data.drop (offset + chunk.length))) :=
    if_pos h
  refine ⟨fun data hdata => ?_, fun failure hfailure => ?_⟩
  · have hdata' : Bytes.splice page.data offset chunk = .ok data := hdata
    rw [ends_set, hdata']
  · cases hspliced.symm.trans hfailure

theorem ends_write_rewritten (tx : TxId) (offset : Nat) (chunk : Bytes) (page : Page) :
    Ends (write tx offset chunk) page (fun _ after => page.Rewritten tx after)
      (fun _ after => page.Rewritten tx after) := by
  apply (ends_write tx offset chunk page).mono
  · rintro _ _ rfl
    exact page.rewritten_overwritten tx offset chunk
  · rintro _ _ rfl
    exact page.rewritten_overwritten tx offset chunk

end Page

namespace Layout

variable (layout : Layout) (tx : TxId) (page : Page)

/-- The page with the header bit of a slot set or cleared. -/
def headed (page : Page) (tx : TxId) (slot : Nat) (used : Bool) : Page :=
  (page.touch tx).withData (page.data.setBit slot used)

theorem rewritten_headed (slot : Nat) (used : Bool) :
    page.Rewritten tx (headed page tx slot used) :=
  ⟨_, Bytes.length_setBit .., rfl⟩

theorem ends_setHeader (slot : Nat) (used : Bool) :
    Ends (setHeader tx slot used) page (fun _ after => after = headed page tx slot used)
      fun _ _ => False := by
  unfold setHeader
  rw [ends_bind, ends_modify, ends_modify]
  rfl

theorem ends_insert (tuple : Tuple) :
    Ends (layout.insert tx tuple) page (fun _ after => page.Rewritten tx after)
      (fun _ after => after = page ∨ page.Rewritten tx after) := by
  unfold insert
  split
  · exact .inl rfl
  rw [ends_bind, ends_get, ends_bind, ends_lift]
  refine ⟨fun occupancy _ => ?_, fun _ _ => .inl rfl⟩
  split
  · exact .inl rfl
  · next slot _ =>
    refine (ends_setHeader tx page slot true).bind ?_ fun _ _ => False.elim
    rintro _ marked rfl
    have hmarked := rewritten_headed tx page slot true
    refine (Page.ends_write_rewritten tx _ _ _).bind ?_ fun _ after hafter =>
      .inr (hmarked.trans hafter)
    intro _ after hafter
    exact hmarked.trans hafter

theorem ends_delete (tuple : Tuple) :
    Ends (layout.delete tx tuple) page (fun _ after => page.Rewritten tx after)
      (fun _ after => after = page) := by
  unfold delete
  rw [ends_bind, ends_get]
  cases tuple.rid with
  | none => rfl
  | some rid =>
      dsimp only
      split
      · rfl
      rw [ends_bind, ends_lift]
      refine ⟨fun used _ => ?_, fun _ _ => rfl⟩
      split
      · refine (ends_setHeader tx page _ false).mono ?_ fun _ _ => False.elim
        rintro _ _ rfl
        exact rewritten_headed tx page rid.slot false
      · rfl

end Layout

end PagePool
