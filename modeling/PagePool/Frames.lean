import PagePool.Latch
import PagePool.Page

/-!
Frames: the page objects in memory. A frame keeps its number for good, so the cache and everybody
who was handed a page share one object.
-/

namespace PagePool

abbrev PageRef := Nat

structure Frame where
  page : Page
  latch : Latch
  deriving DecidableEq

instance : Inhabited Frame :=
  ⟨{ page := default, latch := .free }⟩

namespace Frame

/-- A page may leave memory if nobody is writing it and no bytes of it would be lost: it is clean,
and no abort needs its before-image. -/
def isSpare (frame : Frame) : Bool :=
  !frame.latch.refusesRead && frame.page.dirty.isNone && !frame.page.stolen

end Frame

structure Frames where
  cells : List Frame
  deriving DecidableEq, Inhabited

namespace Frames

def empty : Frames :=
  { cells := [] }

/-- The number of the next frame. -/
def next (frames : Frames) : PageRef :=
  frames.cells.length

def frame (frames : Frames) (ref : PageRef) : Frame :=
  frames.cells.getD ref default

def page (frames : Frames) (ref : PageRef) : Page :=
  (frames.frame ref).page

def setFrame (frames : Frames) (ref : PageRef) (frame : Frame) : Frames :=
  { cells := frames.cells.set ref frame }

def setPage (frames : Frames) (ref : PageRef) (page : Page) : Frames :=
  frames.setFrame ref { frames.frame ref with page }

def setLatch (frames : Frames) (ref : PageRef) (latch : Latch) : Frames :=
  frames.setFrame ref { frames.frame ref with latch }

/-- Puts a page into a new frame. -/
def alloc (frames : Frames) (page : Page) : Frames :=
  { cells := frames.cells ++ [{ page, latch := .free }] }

theorem frame_setFrame (frames : Frames) (ref other : PageRef) (frame : Frame) :
    (frames.setFrame ref frame).frame other =
      if other = ref ∧ ref < frames.next then frame else frames.frame other := by
  simp only [setFrame, Frames.frame, next, List.getD_eq_getElem?_getD, List.getElem?_set]
  by_cases same : ref = other
  · subst same
    by_cases inside : ref < frames.cells.length
    · simp [inside]
    · simp [inside]
  · simp [same, Ne.symm same]

theorem page_setPage (frames : Frames) (ref other : PageRef) (page : Page) :
    (frames.setPage ref page).page other =
      if other = ref ∧ ref < frames.next then page else frames.page other := by
  unfold setPage Frames.page
  rw [frame_setFrame]
  split <;> rfl

theorem page_setLatch (frames : Frames) (ref other : PageRef) (latch : Latch) :
    (frames.setLatch ref latch).page other = frames.page other := by
  unfold setLatch Frames.page
  rw [frame_setFrame]
  split
  · next h => rw [h.1]
  · rfl

theorem page_alloc (frames : Frames) (page : Page) (ref : PageRef) :
    (frames.alloc page).page ref = if ref = frames.next then page else frames.page ref := by
  simp only [alloc, Frames.page, Frames.frame, next, List.getD_eq_getElem?_getD,
    List.getElem?_append]
  by_cases inside : ref < frames.cells.length
  · simp [inside, Nat.ne_of_lt inside]
  · by_cases same : ref = frames.cells.length
    · simp [same]
    · obtain ⟨behind, eq⟩ : ∃ n, ref - frames.cells.length = n + 1 :=
        Nat.exists_eq_add_one.2
          (Nat.sub_pos_of_lt (Nat.lt_of_le_of_ne (Nat.le_of_not_lt inside) (Ne.symm same)))
      simp [inside, same, eq]

theorem latch_alloc (frames : Frames) (page : Page) (ref : PageRef) :
    ((frames.alloc page).frame ref).latch =
      if ref < frames.next then (frames.frame ref).latch else .free := by
  simp only [alloc, Frames.frame, next, List.getD_eq_getElem?_getD, List.getElem?_append]
  split
  · rfl
  · cases ref - frames.cells.length <;> rfl

end Frames

end PagePool
