import Mathlib.Logic.Relation
import PagePool.Frames
import PagePool.Proofs.Lock.Table

/-!
# One page of a pool

All that a pool knows about one page is its standing: the object in the cache, the bytes in storage,
and the lock records. Whatever a transaction does moves the standings of pages by a few kinds of
moves. The standing of a page is coherent if its cached object agrees with storage, or has an owner
and can be taken back to the bytes that it had before the owner wrote it. All moves keep it so.
-/

namespace PagePool

open LockRecord

namespace Page

/-- The object of a page that nobody has written since its bytes were last settled. -/
structure Settled (page : Page) (bytes : Bytes) : Prop where
  data_eq : page.data = bytes
  dirty_eq : page.dirty = none
  image_eq : page.beforeImage = none
  stolen_eq : page.stolen = false

/-- The object of a page that a transaction has written, over the bytes in storage. The image goes
to storage at an abort exactly if the object has gone there before. -/
structure Unfinished (page : Page) (tx : TxId) (image bytes : Bytes) : Prop where
  image_eq : page.beforeImage = some image
  length_eq : image.length = bytes.length
  dirty_or : page.dirty = some tx ∨ (page.dirty = none ∧ page.stolen = true ∧ page.data = bytes)
  stored_or : page.stolen = true ∨ bytes = image

def Faithful (page : Page) (records : List LockRecord) (bytes : Bytes) : Prop :=
  page.Settled bytes ∨ ∃ tx image, OwnedBy records tx ∧ page.Unfinished tx image bytes

end Page

structure Standing where
  cached : Option (PageRef × Page)
  stored : Option Bytes
  records : List LockRecord

namespace Standing

/-- The bytes that whoever gets the page is shown; a page that does not exist counts as blank. -/
def content (size : Nat) (standing : Standing) : Bytes :=
  match standing.cached with
  | some (_, page) => page.data
  | none => standing.stored.getD (Bytes.zeros size)

/-- The bytes that an abort goes back to. -/
def base (size : Nat) (standing : Standing) : Bytes :=
  match standing.cached with
  | some (_, page) => page.beforeImage.getD page.data
  | none => standing.stored.getD (Bytes.zeros size)

/-- The bytes in storage. -/
def onDisk (size : Nat) (standing : Standing) : Bytes :=
  standing.stored.getD (Bytes.zeros size)

/-- The owner has written the object in the cache. -/
def WrittenBy (standing : Standing) (tx : TxId) : Prop :=
  OwnedBy standing.records tx ∧
    ∃ ref page, standing.cached = some (ref, page) ∧ page.beforeImage.isSome = true

structure Coherent (id : PageId) (standing : Standing) : Prop where
  compatible : Compatible id standing.records
  resident : ∀ ref page, standing.cached = some (ref, page) → ∃ bytes,
    standing.stored = some bytes ∧ page.data.length = bytes.length ∧
      page.Faithful standing.records bytes

/-- What a transaction does to the pages when it acts: it looks at them and locks them, or changes
them as well, or has them flushed. -/
inductive Deed where
  | access
  | change
  | flush
  deriving DecidableEq

inductive Move (size : Nat) (deed : Deed) (id : PageId) (tx : TxId) (before : Standing) :
    Standing → Prop where
  | load {ref : PageRef} {data : Bytes} (hcached : before.cached = none)
      (hstored : before.stored = some data) :
      Move size deed id tx before { before with cached := some (ref, Page.load id data) }
  | evict {ref : PageRef} {page : Page} (hcached : before.cached = some (ref, page))
      (hclean : page.dirty = none) (hstolen : page.stolen = false)
      (hfree : ∀ owner, ¬OwnedBy before.records owner) :
      Move size deed id tx before { before with cached := none }
  | flush {ref : PageRef} {page : Page} (hdeed : deed = .flush)
      (hcached : before.cached = some (ref, page)) (hdirty : page.dirty.isSome = true) :
      Move size deed id tx before
        { before with cached := some (ref, page.flushed), stored := some page.data }
  | grant {records : List LockRecord} (hcompatible : Compatible id records)
      (hheld : ∀ holder, HeldBy before.records holder → HeldBy records holder)
      (howned : ∀ owner, OwnedBy before.records owner → OwnedBy records owner)
      (hheld_others : ∀ holder, holder ≠ tx → HeldBy records holder →
        HeldBy before.records holder)
      (howned_others : ∀ owner, owner ≠ tx → OwnedBy records owner →
        OwnedBy before.records owner) :
      Move size deed id tx before { before with records }
  | write {ref : PageRef} {page : Page} {data : Bytes} (hdeed : deed = .change)
      (hcached : before.cached = some (ref, page)) (howner : OwnedBy before.records tx)
      (hlength : data.length = page.data.length) :
      Move size deed id tx before
        { before with cached := some (ref, (page.touch tx).withData data) }
  | mark {ref : PageRef} {page : Page} (hdeed : deed = .change)
      (hcached : before.cached = some (ref, page)) (howner : OwnedBy before.records tx)
      (himage : page.beforeImage.isSome = true) :
      Move size deed id tx before { before with cached := some (ref, page.mark tx true) }
  | drop (hdeed : deed = .change) (hreader : ¬OwnedBy before.records tx) :
      Move size deed id tx before
        { before with records := before.records.filter (·.tx ≠ tx) }
  | append (hdeed : deed = .change) (hstored : before.stored = none) :
      Move size deed id tx before { before with stored := some (Bytes.zeros size) }

end Standing

namespace Page

variable {page : Page} {records after : List LockRecord} {bytes data : Bytes} {tx owner : TxId}

theorem Settled.load (id : PageId) (data : Bytes) : (Page.load id data).Settled data where
  data_eq := rfl
  dirty_eq := rfl
  image_eq := rfl
  stolen_eq := rfl

theorem Faithful.mono (h : page.Faithful records bytes)
    (howned : ∀ owner, OwnedBy records owner → OwnedBy after owner) :
    page.Faithful after bytes := by
  rcases h with hsettled | ⟨owner, image, howner, hunfinished⟩
  · exact .inl hsettled
  · exact .inr ⟨owner, image, howned owner howner, hunfinished⟩

theorem Faithful.settled (h : page.Faithful records bytes) (himage : page.beforeImage = none) :
    page.Settled bytes := by
  rcases h with hsettled | ⟨owner, image, howner, hunfinished⟩
  · exact hsettled
  · rw [hunfinished.image_eq] at himage
    cases himage

theorem Faithful.data_eq_of_clean (h : page.Faithful records bytes) (hclean : page.dirty = none) :
    page.data = bytes := by
  rcases h with hsettled | ⟨owner, image, howner, hunfinished⟩
  · exact hsettled.data_eq
  · rcases hunfinished.dirty_or with hdirty | ⟨_, _, hdata⟩
    · rw [hclean] at hdirty
      cases hdirty
    · exact hdata

theorem Faithful.unfinished (h : page.Faithful records bytes) (himage : page.beforeImage.isSome) :
    ∃ owner image, OwnedBy records owner ∧ page.Unfinished owner image bytes := by
  rcases h with hsettled | hunfinished
  · rw [hsettled.image_eq] at himage
    cases himage
  · exact hunfinished

theorem Faithful.image_of_dirty (h : page.Faithful records bytes) (hdirty : page.dirty.isSome) :
    page.beforeImage.isSome := by
  rcases h with hsettled | ⟨owner, image, howner, hunfinished⟩
  · rw [hsettled.dirty_eq] at hdirty
    cases hdirty
  · rw [hunfinished.image_eq]
    rfl

theorem Faithful.write (h : page.Faithful records bytes) (hlength : page.data.length = bytes.length)
    (howner : OwnedBy records tx) (data : Bytes) :
    ((page.touch tx).withData data).Faithful records bytes := by
  refine .inr ⟨tx, page.beforeImage.getD page.data, howner, rfl, ?_, .inl rfl, ?_⟩
  · rcases h with hsettled | ⟨owner, image, _, hunfinished⟩
    · rwa [hsettled.image_eq]
    · rw [hunfinished.image_eq]
      exact hunfinished.length_eq
  · rcases h with hsettled | ⟨owner, image, _, hunfinished⟩
    · rw [hsettled.image_eq]
      exact .inr hsettled.data_eq.symm
    · rw [hunfinished.image_eq]
      exact hunfinished.stored_or

theorem Faithful.mark (h : page.Faithful records bytes) (howner : OwnedBy records tx)
    (himage : page.beforeImage.isSome) : (page.mark tx true).Faithful records bytes := by
  obtain ⟨owner, image, _, hunfinished⟩ := h.unfinished himage
  exact .inr ⟨tx, image, howner, hunfinished.image_eq, hunfinished.length_eq, .inl rfl,
    hunfinished.stored_or⟩

/-- Once a dirty object has gone to storage, only its before-image is uncommon. -/
theorem Faithful.flush (h : page.Faithful records bytes) (hdirty : page.dirty.isSome)
    (hlength : page.data.length = bytes.length) : page.flushed.Faithful records page.data := by
  have himage := h.image_of_dirty hdirty
  obtain ⟨owner, image, howner, hunfinished⟩ := h.unfinished himage
  have hstolen : page.flushed.stolen = true := by simp [flushed, himage]
  exact .inr ⟨owner, image, howner, hunfinished.image_eq, hunfinished.length_eq.trans hlength.symm,
    .inr ⟨rfl, hstolen, rfl⟩, .inl hstolen⟩

end Page

namespace Standing

variable {size : Nat} {deed : Deed} {id : PageId} {tx holder : TxId} {before after : Standing}
  {ref : PageRef} {page : Page}

theorem content_of_cached (h : before.cached = some (ref, page)) :
    before.content size = page.data := by
  simp only [content, h]

theorem base_of_cached (h : before.cached = some (ref, page)) :
    before.base size = page.beforeImage.getD page.data := by
  simp only [base, h]

theorem content_of_absent (h : before.cached = none) :
    before.content size = before.stored.getD (Bytes.zeros size) := by
  simp only [content, h]

theorem base_of_absent (h : before.cached = none) :
    before.base size = before.stored.getD (Bytes.zeros size) := by
  simp only [base, h]

namespace Coherent

variable (hbefore : before.Coherent id)
include hbefore

theorem cached_eq_none (hstored : before.stored = none) : before.cached = none := by
  cases hcached : before.cached with
  | none => rfl
  | some entry =>
      obtain ⟨bytes, hbytes, _⟩ := hbefore.resident entry.1 entry.2 hcached
      rw [hstored] at hbytes
      cases hbytes

/-- Nobody but an owner keeps the cache and storage apart. -/
theorem settled (hfree : ∀ owner, ¬OwnedBy before.records owner)
    (hcached : before.cached = some (ref, page)) :
    ∃ bytes, before.stored = some bytes ∧ page.Settled bytes := by
  obtain ⟨bytes, hstored, _, hfaithful⟩ := hbefore.resident ref page hcached
  rcases hfaithful with hsettled | ⟨owner, _, howner, _⟩
  · exact ⟨bytes, hstored, hsettled⟩
  · exact absurd howner (hfree owner)

/-- Unless its object has gone to storage, storage has the bytes that an abort goes back to. -/
theorem onDisk_eq_base
    (hunstolen : ∀ ref page, before.cached = some (ref, page) → page.stolen = false) :
    before.onDisk size = before.base size := by
  cases hcached : before.cached with
  | none => exact (base_of_absent hcached).symm
  | some entry =>
      obtain ⟨ref, page⟩ := entry
      obtain ⟨bytes, hstored, _, hfaithful⟩ := hbefore.resident ref page hcached
      rw [base_of_cached hcached, onDisk, hstored, Option.getD_some]
      rcases hfaithful with hsettled | ⟨_, image, _, hunfinished⟩
      · rw [hsettled.image_eq, hsettled.data_eq]
        rfl
      · rw [hunfinished.image_eq]
        refine hunfinished.stored_or.resolve_left ?_
        simp [hunstolen ref page hcached]

theorem move (h : Move size deed id tx before after) : after.Coherent id := by
  have hcompatible := hbefore.compatible
  cases h with
  | load hcached hstored =>
      refine ⟨hcompatible, fun ref page hpage => ?_⟩
      obtain ⟨rfl, rfl⟩ := Prod.mk.inj (Option.some.inj hpage)
      exact ⟨_, hstored, rfl, .inl (.load id _)⟩
  | evict => exact ⟨hcompatible, fun ref page hpage => by cases hpage⟩
  | flush hdeed hcached hdirty =>
      obtain ⟨bytes, hstored, hlength, hfaithful⟩ := hbefore.resident _ _ hcached
      refine ⟨hcompatible, fun ref page hpage => ?_⟩
      obtain ⟨rfl, rfl⟩ := Prod.mk.inj (Option.some.inj hpage)
      exact ⟨_, rfl, rfl, hfaithful.flush hdirty hlength⟩
  | grant hgranted hheld howned =>
      refine ⟨hgranted, fun ref page hpage => ?_⟩
      obtain ⟨bytes, hstored, hlength, hfaithful⟩ := hbefore.resident ref page hpage
      exact ⟨bytes, hstored, hlength, hfaithful.mono howned⟩
  | write hdeed hcached howner hdata =>
      obtain ⟨bytes, hstored, hlength, hfaithful⟩ := hbefore.resident _ _ hcached
      refine ⟨hcompatible, fun ref page hpage => ?_⟩
      obtain ⟨rfl, rfl⟩ := Prod.mk.inj (Option.some.inj hpage)
      exact ⟨bytes, hstored, hdata.trans hlength, hfaithful.write hlength howner _⟩
  | mark hdeed hcached howner himage =>
      obtain ⟨bytes, hstored, hlength, hfaithful⟩ := hbefore.resident _ _ hcached
      refine ⟨hcompatible, fun ref page hpage => ?_⟩
      obtain ⟨rfl, rfl⟩ := Prod.mk.inj (Option.some.inj hpage)
      exact ⟨bytes, hstored, hlength, hfaithful.mark howner himage⟩
  | drop hdeed hreader =>
      refine ⟨hcompatible.filter _, fun ref page hpage => ?_⟩
      obtain ⟨bytes, hstored, hlength, hfaithful⟩ := hbefore.resident ref page hpage
      refine ⟨bytes, hstored, hlength, hfaithful.mono fun owner howner => ?_⟩
      exact ownedBy_filter_ne.2 ⟨howner, fun hsame => hreader (hsame ▸ howner)⟩
  | append hdeed hstored =>
      refine ⟨hcompatible, fun ref page hpage => ?_⟩
      rw [hbefore.cached_eq_none hstored] at hpage
      cases hpage

/-- No move changes the bytes that an abort goes back to. -/
theorem base_move (h : Move size deed id tx before after) :
    after.base size = before.base size := by
  cases h with
  | load hcached hstored =>
      rw [base_of_absent hcached, hstored]
      rfl
  | evict hcached hclean hstolen hfree =>
      obtain ⟨bytes, hstored, hsettled⟩ := hbefore.settled hfree hcached
      rw [base_of_cached hcached, hsettled.image_eq, base_of_absent rfl, hstored]
      exact hsettled.data_eq.symm
  | flush hdeed hcached hdirty =>
      rw [base_of_cached hcached, base_of_cached rfl]
      rfl
  | grant => rfl
  | write hdeed hcached howner hlength =>
      rw [base_of_cached hcached, base_of_cached rfl]
      rfl
  | mark hdeed hcached howner himage =>
      rw [base_of_cached hcached, base_of_cached rfl]
      rfl
  | drop => rfl
  | append hdeed hstored =>
      have hcached := hbefore.cached_eq_none hstored
      simp [base, hcached, hstored]

/-- Only an owner that writes changes what the others would be shown. -/
theorem content_move (h : Move size deed id tx before after) :
    after.content size = before.content size ∨
      (deed = .change ∧ after.WrittenBy tx) := by
  cases h with
  | load hcached hstored =>
      rw [content_of_absent hcached, hstored]
      exact .inl rfl
  | evict hcached hclean hstolen hfree =>
      obtain ⟨bytes, hstored, hsettled⟩ := hbefore.settled hfree hcached
      rw [content_of_cached hcached, content_of_absent rfl, hstored]
      exact .inl hsettled.data_eq.symm
  | flush hdeed hcached hdirty =>
      rw [content_of_cached hcached, content_of_cached rfl]
      exact .inl rfl
  | grant => exact .inl rfl
  | write hdeed hcached howner hlength => exact .inr ⟨hdeed, howner, _, _, rfl, rfl⟩
  | mark hdeed hcached howner himage => exact .inr ⟨hdeed, howner, _, _, rfl, himage⟩
  | drop => exact .inl rfl
  | append hdeed hstored =>
      have hcached := hbefore.cached_eq_none hstored
      simp [content, hcached, hstored]

end Coherent

section Locks

theorem heldBy_move_iff (h : Move size deed id tx before after) (hother : holder ≠ tx) :
    HeldBy after.records holder ↔ HeldBy before.records holder := by
  cases h with
  | grant hcompatible hheld howned hheld_others =>
      exact ⟨hheld_others holder hother, hheld holder⟩
  | drop =>
      rw [heldBy_filter_ne]
      exact and_iff_left hother
  | _ => exact Iff.rfl

theorem ownedBy_move_iff (h : Move size deed id tx before after) (hother : holder ≠ tx) :
    OwnedBy after.records holder ↔ OwnedBy before.records holder := by
  cases h with
  | grant hcompatible hheld howned hheld_others howned_others =>
      exact ⟨howned_others holder hother, howned holder⟩
  | drop =>
      rw [ownedBy_filter_ne]
      exact and_iff_left hother
  | _ => exact Iff.rfl

theorem ownedBy_move (h : Move size deed id tx before after)
    (howner : OwnedBy before.records holder) : OwnedBy after.records holder := by
  cases h with
  | grant hcompatible hheld howned => exact howned holder howner
  | drop hdeed hreader =>
      exact ownedBy_filter_ne.2 ⟨howner, fun hsame => hreader (hsame ▸ howner)⟩
  | _ => exact howner

theorem heldBy_move (h : Move size deed id tx before after) (hquiet : deed ≠ .change)
    (hholder : HeldBy before.records holder) : HeldBy after.records holder := by
  cases h with
  | grant hcompatible hheld => exact hheld holder hholder
  | drop hdeed => exact absurd hdeed hquiet
  | _ => exact hholder

end Locks

/-- A page with an owner stays in the cache, and keeps the image it has. -/
theorem cached_move (h : Move size deed id tx before after)
    (howner : OwnedBy before.records holder) (hcached : before.cached = some (ref, page)) :
    ∃ page', after.cached = some (ref, page') ∧
      (page.beforeImage.isSome → page'.beforeImage.isSome) := by
  cases h with
  | load habsent =>
      rw [habsent] at hcached
      cases hcached
  | evict hentry hclean hstolen hfree => exact absurd howner (hfree holder)
  | flush hdeed hentry =>
      rw [hcached] at hentry
      cases hentry
      exact ⟨_, rfl, fun himage => himage⟩
  | write hdeed hentry =>
      rw [hcached] at hentry
      cases hentry
      exact ⟨_, rfl, fun _ => rfl⟩
  | mark hdeed hentry =>
      rw [hcached] at hentry
      cases hentry
      exact ⟨_, rfl, fun himage => himage⟩
  | _ => exact ⟨page, hcached, fun himage => himage⟩

theorem WrittenBy.move (hwritten : before.WrittenBy holder)
    (h : Move size deed id tx before after) : after.WrittenBy holder := by
  obtain ⟨howner, ref, page, hcached, himage⟩ := hwritten
  obtain ⟨page', hcached', himage'⟩ := cached_move h howner hcached
  exact ⟨ownedBy_move h howner, ref, page', hcached', himage' himage⟩

theorem isSome_stored_move (h : Move size deed id tx before after)
    (hstored : before.stored.isSome) : after.stored.isSome := by
  cases h with
  | flush => rfl
  | append => rfl
  | _ => exact hstored

/-- Somebody who has locked the page has read its bytes from storage, and they still stand. -/
structure Reading (standing : Standing) (reader : TxId) (data : Bytes) : Prop where
  heldBy : HeldBy standing.records reader
  stored_eq : standing.stored = some data
  imageless : ∀ ref page, standing.cached = some (ref, page) → page.beforeImage = none

theorem Reading.move {reader : TxId} {data : Bytes} (hreading : before.Reading reader data)
    (hbefore : before.Coherent id) (hother : reader ≠ tx)
    (h : Move size deed id tx before after) : after.Reading reader data := by
  have hheld := (heldBy_move_iff h hother).2 hreading.heldBy
  have hstranger : ¬OwnedBy before.records tx := fun howner =>
    hother (hbefore.compatible.heldBy_eq howner hreading.heldBy)
  cases h with
  | load hcached hstored =>
      refine ⟨hheld, hreading.stored_eq, fun ref page hpage => ?_⟩
      obtain ⟨_, rfl⟩ := Prod.mk.inj (Option.some.inj hpage)
      rfl
  | evict => exact ⟨hheld, hreading.stored_eq, fun ref page hpage => by cases hpage⟩
  | flush hdeed hcached hdirty =>
      obtain ⟨bytes, _, _, hfaithful⟩ := hbefore.resident _ _ hcached
      have himage := hfaithful.image_of_dirty hdirty
      rw [hreading.imageless _ _ hcached] at himage
      cases himage
  | grant => exact ⟨hheld, hreading.stored_eq, hreading.imageless⟩
  | write hdeed hcached howner => exact absurd howner hstranger
  | mark hdeed hcached howner => exact absurd howner hstranger
  | drop => exact ⟨hheld, hreading.stored_eq, hreading.imageless⟩
  | append hdeed hstored =>
      rw [hreading.stored_eq] at hstored
      cases hstored

/-- Any number of moves of one page. -/
def Moves (size : Nat) (deed : Deed) (id : PageId) (tx : TxId) : Standing → Standing → Prop :=
  Relation.ReflTransGen (Move size deed id tx)

theorem Moves.of_eq (h : after = before) : Moves size deed id tx before after :=
  h ▸ .refl

/-- What a move keeps of a coherent standing is kept by any number of them. -/
theorem Moves.induction {motive : Standing → Prop} (h : Moves size deed id tx before after)
    (hbefore : before.Coherent id) (hstart : motive before)
    (hmove : ∀ {first second}, first.Coherent id → Move size deed id tx first second →
      motive first → motive second) : motive after := by
  have hboth : after.Coherent id ∧ motive after := by
    induction h with
    | refl => exact ⟨hbefore, hstart⟩
    | tail _ hlast ih => exact ⟨ih.1.move hlast, hmove ih.1 hlast ih.2⟩
  exact hboth.2

namespace Moves

variable (h : Moves size deed id tx before after) (hbefore : before.Coherent id)
include h hbefore

theorem coherent : after.Coherent id :=
  h.induction hbefore hbefore fun hcoherent hmove _ => hcoherent.move hmove

theorem base_eq : after.base size = before.base size :=
  h.induction (motive := fun standing => standing.base size = before.base size) hbefore rfl
    fun hcoherent hmove heq => (hcoherent.base_move hmove).trans heq

theorem content_eq_or : after.content size = before.content size ∨
    (deed = .change ∧ after.WrittenBy tx) := by
  refine h.induction (motive := fun standing => standing.content size = before.content size ∨
    (deed = .change ∧ standing.WrittenBy tx)) hbefore (.inl rfl) fun hcoherent hmove hor => ?_
  rcases hor with heq | ⟨hdeed, hwritten⟩
  · rcases hcoherent.content_move hmove with heq' | hwritten
    · exact .inl (heq'.trans heq)
    · exact .inr hwritten
  · exact .inr ⟨hdeed, hwritten.move hmove⟩

theorem onDisk_eq (hkept : deed ≠ .flush) : after.onDisk size = before.onDisk size := by
  refine h.induction (motive := fun standing => standing.onDisk size = before.onDisk size)
    hbefore rfl fun hcoherent hmove heq => ?_
  cases hmove with
  | flush hdeed => exact absurd hdeed hkept
  | append hdeed hstored =>
      refine Eq.trans ?_ heq
      simp [onDisk, hstored]
  | _ => exact heq

/-- Storage keeps the bytes that it has, or gets those that are shown. -/
theorem onDisk_eq_or (hquiet : deed ≠ .change) :
    after.onDisk size = before.onDisk size ∨ after.onDisk size = before.content size := by
  have hboth := h.induction (motive := fun standing =>
    standing.content size = before.content size ∧ (standing.onDisk size = before.onDisk size ∨
      standing.onDisk size = before.content size)) hbefore ⟨rfl, .inl rfl⟩ ?_
  · exact hboth.2
  · intro first second hcoherent hmove ⟨hcontent, hdisk⟩
    have hcontent' : second.content size = before.content size := by
      rcases hcoherent.content_move hmove with heq | ⟨hdeed, _⟩
      · exact heq.trans hcontent
      · exact absurd hdeed hquiet
    refine ⟨hcontent', ?_⟩
    cases hmove with
    | flush hdeed hcached =>
        refine .inr (Eq.trans ?_ hcontent)
        exact (content_of_cached hcached).symm
    | append hdeed => exact absurd hdeed hquiet
    | _ => exact hdisk

theorem writtenBy (hwritten : before.WrittenBy holder) : after.WrittenBy holder :=
  h.induction (motive := fun standing => standing.WrittenBy holder) hbefore hwritten
    fun _ hmove hwritten => hwritten.move hmove

theorem cached_of_owned (howner : OwnedBy before.records holder)
    (hcached : before.cached = some (ref, page)) :
    ∃ page', after.cached = some (ref, page') ∧
      (page.beforeImage.isSome → page'.beforeImage.isSome) := by
  refine (h.induction (motive := fun standing => OwnedBy standing.records holder ∧
    ∃ page', standing.cached = some (ref, page') ∧
      (page.beforeImage.isSome → page'.beforeImage.isSome)) hbefore
    ⟨howner, page, hcached, fun himage => himage⟩ fun _ hmove hkept => ?_).2
  obtain ⟨howner, page', hcached, himage⟩ := hkept
  obtain ⟨page'', hcached, himage'⟩ := cached_move hmove howner hcached
  exact ⟨ownedBy_move hmove howner, page'', hcached, himage' ∘ himage⟩

theorem reading {reader : TxId} {data : Bytes} (hreading : before.Reading reader data)
    (hother : reader ≠ tx) : after.Reading reader data :=
  h.induction (motive := fun standing => standing.Reading reader data) hbefore hreading
    fun hcoherent hmove hreading => hreading.move hcoherent hother hmove

omit hbefore

theorem heldBy_iff (hother : holder ≠ tx) :
    HeldBy after.records holder ↔ HeldBy before.records holder := by
  induction h with
  | refl => exact Iff.rfl
  | tail _ hlast ih => exact (heldBy_move_iff hlast hother).trans ih

theorem ownedBy_iff (hother : holder ≠ tx) :
    OwnedBy after.records holder ↔ OwnedBy before.records holder := by
  induction h with
  | refl => exact Iff.rfl
  | tail _ hlast ih => exact (ownedBy_move_iff hlast hother).trans ih

theorem ownedBy (howner : OwnedBy before.records holder) : OwnedBy after.records holder := by
  induction h with
  | refl => exact howner
  | tail _ hlast ih => exact ownedBy_move hlast ih

theorem isSome_stored (hstored : before.stored.isSome) : after.stored.isSome := by
  induction h with
  | refl => exact hstored
  | tail _ hlast ih => exact isSome_stored_move hlast ih

end Moves

/-- Whoever only looks at pages leaves the object of an owner as it is. -/
theorem Moves.cached_eq {entry : PageRef × Page} (h : Moves size .access id tx before after)
    (howner : OwnedBy before.records holder) (hcached : before.cached = some entry) :
    after.cached = some entry := by
  induction h with
  | refl => exact hcached
  | tail hfirst hlast ih =>
      have howner' := Moves.ownedBy hfirst howner
      cases hlast with
      | load habsent =>
          rw [habsent] at ih
          cases ih
      | evict _ _ _ hfree => exact absurd howner' (hfree holder)
      | grant => exact ih
      | flush hdeed | write hdeed | mark hdeed | drop hdeed | append hdeed => cases hdeed

/-- Only a flush writes over bytes in storage. -/
theorem Moves.stored_eq {data : Bytes} (h : Moves size deed id tx before after)
    (hdeed : deed ≠ .flush) (hstored : before.stored = some data) : after.stored = some data := by
  induction h with
  | refl => exact hstored
  | tail _ hlast ih =>
      cases hlast with
      | flush hflush => exact absurd hflush hdeed
      | append _ hnone =>
          rw [hnone] at ih
          cases ih
      | load | evict | grant | write | mark | drop => exact ih

theorem Moves.content_eq (h : Moves size deed id tx before after) (hquiet : deed ≠ .change)
    (hbefore : before.Coherent id) : after.content size = before.content size := by
  rcases h.content_eq_or hbefore with heq | ⟨hdeed, _⟩
  · exact heq
  · exact absurd hdeed hquiet

/-- Pages come into being by writers only. -/
theorem Moves.stored_eq_none (h : Moves size deed id tx before after) (hquiet : deed ≠ .change)
    (hbefore : before.Coherent id) (hstored : before.stored = none) : after.stored = none := by
  refine h.induction (motive := fun standing => standing.stored = none) hbefore hstored ?_
  intro first second hcoherent hmove hnone
  cases hmove with
  | flush hdeed hcached =>
      rw [hcoherent.cached_eq_none hnone] at hcached
      cases hcached
  | append hdeed => exact absurd hdeed hquiet
  | _ => exact hnone

theorem Moves.heldBy (h : Moves size deed id tx before after) (hquiet : deed ≠ .change)
    (hholder : HeldBy before.records holder) : HeldBy after.records holder := by
  induction h with
  | refl => exact hholder
  | tail _ hlast ih => exact heldBy_move hlast hquiet ih

end Standing

end PagePool
