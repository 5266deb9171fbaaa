import PagePool.Proofs.Pool.Access
import PagePool.Proofs.Pool.Flushing

/-!
# The end of a transaction

At its end a transaction goes through the pages that it has locked. The object of each of them is
then what a load of the bytes would give that the transaction leaves behind, or of those that were
there before it; these bytes go to storage if the object is dirty, or if those of the transaction
have gone there. That is all that an end does, whether storage agrees with the clean objects or not.
Where it does, every page is settled: the cache and storage have the same bytes. After the pages go
the locks.
-/

namespace PagePool

open LockRecord Standing Pool

namespace Page

theorem eq_load {page : Page} {id : PageId} (hid : page.id = id) (hdirty : page.dirty = none)
    (himage : page.beforeImage = none) (hstolen : page.stolen = false) :
    page = load id page.data := by
  obtain ⟨_, data, _, _, _⟩ := page
  cases hid
  cases hdirty
  cases himage
  cases hstolen
  rfl

/-- A page that a transaction can end on: what is unfinished on it is the transaction's, and can be
taken back. -/
structure Closable (tx : TxId) (size : Nat) (page : Page) : Prop where
  length_data : page.data.length = size
  length_image : ∀ image, page.beforeImage = some image → image.length = size
  image_of_dirty : page.dirty.isSome → page.beforeImage.isSome
  image_of_stolen : page.stolen = true → page.beforeImage.isSome
  own : ∀ owner, page.dirty = some owner → owner = tx

/-- An end sends the page to storage: a commit if it is dirty, an abort if it has gone there with
the bytes of the transaction. -/
def sent (ending : Ending) (page : Page) : Bool :=
  match ending with
  | .commit => page.dirty.isSome
  | .abort => page.stolen

theorem Closable.settled {tx : TxId} {size : Nat} {page : Page} (h : page.Closable tx size)
    (himage : page.beforeImage = none) : page.Settled page.data := by
  have hnone : page.beforeImage.isSome = false := by rw [himage]; rfl
  refine ⟨rfl, Option.not_isSome_iff_eq_none.1 fun hdirty => ?_, himage,
    Bool.eq_false_iff.2 fun hstolen => ?_⟩
  · exact Bool.false_ne_true (hnone.symm.trans (h.image_of_dirty hdirty))
  · exact Bool.false_ne_true (hnone.symm.trans (h.image_of_stolen hstolen))

end Page

namespace Standing

/-- The bytes that a transaction leaves on a page. -/
def outcome (size : Nat) (ending : Ending) (standing : Standing) : Bytes :=
  match ending with
  | .commit => standing.content size
  | .abort => standing.base size

/-- A page with its cached object, if there is one, and storage taken to the same bytes. -/
def settle (size : Nat) (ending : Ending) (id : PageId) (standing : Standing) : Standing :=
  match standing.cached with
  | none => standing
  | some (ref, _) =>
      let bytes := standing.outcome size ending
      { standing with cached := some (ref, Page.load id bytes), stored := some bytes }

/-- A page after the end of a transaction that has locked it. -/
def conclude (size : Nat) (ending : Ending) (id : PageId) (standing : Standing) : Standing :=
  match standing.cached with
  | none => standing
  | some (ref, object) =>
      let bytes := standing.outcome size ending
      { standing with
        cached := some (ref, Page.load id bytes)
        stored := if object.sent ending then some bytes else standing.stored }

def Closable (tx : TxId) (size : Nat) (standing : Standing) : Prop :=
  ∀ ref page, standing.cached = some (ref, page) →
    standing.stored.isSome ∧ page.Closable tx size

/-- A page without the locks of a transaction. -/
def unlock (tx : TxId) (standing : Standing) : Standing :=
  { standing with records := standing.records.filter (·.tx ≠ tx) }

variable {size : Nat} {ending : Ending} {id : PageId} {tx : TxId} {standing : Standing}
  {ref : PageRef} {page : Page}

theorem Reading.unlock {reader : TxId} {data : Bytes} (h : standing.Reading reader data)
    (hother : reader ≠ tx) : (standing.unlock tx).Reading reader data where
  heldBy := heldBy_filter_ne.2 ⟨h.heldBy, hother⟩
  stored_eq := h.stored_eq
  imageless := h.imageless

theorem settle_of_absent (h : standing.cached = none) :
    standing.settle size ending id = standing := by
  simp only [settle, h]

theorem settle_of_cached (h : standing.cached = some (ref, page)) :
    standing.settle size ending id =
      { standing with
        cached := some (ref, Page.load id (standing.outcome size ending))
        stored := some (standing.outcome size ending) } := by
  simp only [settle, h]

theorem conclude_of_absent (h : standing.cached = none) :
    standing.conclude size ending id = standing := by
  simp only [conclude, h]

theorem conclude_of_cached (h : standing.cached = some (ref, page)) :
    standing.conclude size ending id =
      { standing with
        cached := some (ref, Page.load id (standing.outcome size ending))
        stored :=
          if page.sent ending then some (standing.outcome size ending) else standing.stored } := by
  simp only [conclude, h]

/-- A page on which nobody has left anything unfinished stays as it is. -/
theorem conclude_eq_self {bytes : Bytes} (h : standing.cached = some (ref, page))
    (hid : page.id = id) (hsettled : page.Settled bytes) :
    standing.conclude size ending id = standing := by
  have hbytes : standing.outcome size ending = page.data := by
    cases ending with
    | commit => exact content_of_cached h
    | abort =>
        apply (base_of_cached h).trans
        rw [hsettled.image_eq]
        rfl
  have hsent : page.sent ending = false := by
    cases ending with
    | commit =>
        change page.dirty.isSome = false
        rw [hsettled.dirty_eq]
        rfl
    | abort => exact hsettled.stolen_eq
  rw [conclude_of_cached h, hbytes, ← Page.eq_load hid hsettled.dirty_eq hsettled.image_eq
    hsettled.stolen_eq, hsent, if_neg Bool.false_ne_true, ← h]

theorem unlock_eq_self (h : ¬HeldBy standing.records tx) : standing.unlock tx = standing := by
  have hfilter : standing.records.filter (·.tx ≠ tx) = standing.records := by
    refine List.filter_eq_self.2 fun record hmem => ?_
    exact decide_eq_true fun htx => h ⟨record, hmem, htx⟩
  rw [unlock, hfilter]

@[simp]
theorem records_settle : (standing.settle size ending id).records = standing.records := by
  unfold settle
  split <;> rfl

theorem outcome_of_absent (hcached : standing.cached = none) :
    standing.outcome size ending = standing.stored.getD (Bytes.zeros size) := by
  cases ending with
  | commit => exact content_of_absent hcached
  | abort => exact base_of_absent hcached

namespace Coherent

variable (h : standing.Coherent id)
include h

/-- A page that is locked has no other writer, so what is unfinished on it is the holder's. -/
theorem closable (hheld : HeldBy standing.records tx)
    (hlength : ∀ bytes, standing.stored = some bytes → bytes.length = size) :
    standing.Closable tx size := by
  intro ref page hcached
  obtain ⟨bytes, hstored, hdata, hfaithful⟩ := h.resident ref page hcached
  have hsize := hlength bytes hstored
  refine ⟨Option.isSome_iff_exists.2 ⟨bytes, hstored⟩, hdata.trans hsize, ?_,
    hfaithful.image_of_dirty, ?_, ?_⟩ <;>
    rcases hfaithful with hsettled | ⟨owner, image, howner, hunfinished⟩
  · simp [hsettled.image_eq]
  · intro other hother
    rw [← Option.some.inj (hunfinished.image_eq.symm.trans hother)]
    exact hunfinished.length_eq.trans hsize
  · simp [hsettled.stolen_eq]
  · exact fun _ => Option.isSome_iff_exists.2 ⟨image, hunfinished.image_eq⟩
  · simp [hsettled.dirty_eq]
  · intro other hother
    rcases hunfinished.dirty_or with hdirty | ⟨hclean, _⟩
    · rw [Option.some.inj (hother.symm.trans hdirty)]
      exact (h.compatible.heldBy_eq howner hheld).symm
    · cases hclean.symm.trans hother

/-- Storage has the bytes already that an end does not send there. -/
theorem conclude_eq (size : Nat) (ending : Ending) :
    standing.conclude size ending id = standing.settle size ending id := by
  cases hcached : standing.cached with
  | none => rw [conclude_of_absent hcached, settle_of_absent hcached]
  | some entry =>
      obtain ⟨ref, page⟩ := entry
      rw [conclude_of_cached hcached, settle_of_cached hcached]
      split
      · rfl
      next hunsent =>
      obtain ⟨bytes, hstored, _, hfaithful⟩ := h.resident ref page hcached
      have hbytes : standing.outcome size ending = bytes := by
        cases ending with
        | commit =>
            apply (content_of_cached hcached).trans
            exact hfaithful.data_eq_of_clean (Option.not_isSome_iff_eq_none.1 hunsent)
        | abort =>
            apply (base_of_cached hcached).trans
            rcases hfaithful with hsettled | ⟨_, image, _, hunfinished⟩
            · rw [hsettled.image_eq]
              exact hsettled.data_eq
            · rw [hunfinished.image_eq]
              exact (hunfinished.stored_or.resolve_left hunsent).symm
      rw [hbytes, hstored]

theorem settle : (standing.settle size ending id).Coherent id := by
  cases hcached : standing.cached with
  | none => rwa [settle_of_absent hcached]
  | some entry =>
      rw [settle_of_cached hcached]
      refine ⟨h.compatible, fun ref page hpage => ?_⟩
      obtain ⟨_, rfl⟩ := Prod.mk.inj (Option.some.inj hpage)
      exact ⟨_, rfl, rfl, .inl (.load id _)⟩

/-- The locks of a transaction may go where it has left no unfinished object. -/
theorem unlock (hsettled : ∀ ref page, standing.cached = some (ref, page) →
      OwnedBy standing.records tx → page.beforeImage = none) :
    (standing.unlock tx).Coherent id := by
  refine ⟨h.compatible.filter _, fun ref page hcached => ?_⟩
  obtain ⟨bytes, hstored, hlength, hfaithful⟩ := h.resident ref page hcached
  refine ⟨bytes, hstored, hlength, ?_⟩
  by_cases howner : OwnedBy standing.records tx
  · exact .inl (hfaithful.settled (hsettled ref page hcached howner))
  · refine hfaithful.mono fun owner howner' => ownedBy_filter_ne.2 ⟨howner', ?_⟩
    rintro rfl
    exact howner howner'

theorem stored_settle : (standing.settle size ending id).stored =
    standing.stored.map fun _ => standing.outcome size ending := by
  cases hcached : standing.cached with
  | none =>
      rw [settle_of_absent hcached, outcome_of_absent hcached]
      cases standing.stored <;> rfl
  | some entry =>
      obtain ⟨bytes, hstored, _⟩ := h.resident entry.1 entry.2 hcached
      rw [settle_of_cached hcached, hstored]
      rfl

end Coherent

theorem imageless_settle (hcached : (standing.settle size ending id).cached = some (ref, page)) :
    page.beforeImage = none := by
  cases hentry : standing.cached with
  | none =>
      rw [settle_of_absent hentry, hentry] at hcached
      cases hcached
  | some entry =>
      rw [settle_of_cached hentry] at hcached
      obtain ⟨_, rfl⟩ := Prod.mk.inj (Option.some.inj hcached)
      rfl

section Settle

variable (size : Nat) (ending : Ending) (id : PageId) (standing : Standing)

theorem content_settle :
    (standing.settle size ending id).content size = standing.outcome size ending := by
  cases hcached : standing.cached with
  | none => rw [settle_of_absent hcached, content_of_absent hcached, outcome_of_absent hcached]
  | some entry =>
      rw [settle_of_cached hcached]
      rfl

theorem base_settle :
    (standing.settle size ending id).base size = standing.outcome size ending := by
  cases hcached : standing.cached with
  | none => rw [settle_of_absent hcached, base_of_absent hcached, outcome_of_absent hcached]
  | some entry =>
      rw [settle_of_cached hcached]
      rfl

theorem onDisk_settle :
    (standing.settle size ending id).onDisk size = standing.outcome size ending := by
  cases hcached : standing.cached with
  | none => rw [settle_of_absent hcached, onDisk, outcome_of_absent hcached]
  | some entry =>
      rw [settle_of_cached hcached]
      rfl

end Settle

end Standing
section Finish

/-- A transaction has ended on all pages of a list, and nothing else has changed. -/
structure Pool.Concludes (ending : Ending) (pages : List PageId) (before after : Pool) : Prop where
  sound : after.Sound
  retains : before.Retains after
  locks_eq : after.locks = before.locks
  standing_eq : ∀ id, after.standing id =
    if id ∈ pages then (before.standing id).conclude before.pageSize ending id
    else before.standing id
  page_eq : ∀ ref, (∀ id ∈ pages, before.cache.peek? id ≠ some ref) →
    after.page ref = before.page ref

/-- All pages of a list have been settled, and nothing else has changed. -/
structure Pool.Settles (ending : Ending) (pages : List PageId) (before after : Pool) : Prop where
  sound : after.Sound
  pageSize_eq : after.pageSize = before.pageSize
  tables_eq : after.tables = before.tables
  locks_eq : after.locks = before.locks
  next_eq : after.frames.next = before.frames.next
  standing_eq : ∀ id, after.standing id =
    if id ∈ pages then (before.standing id).settle before.pageSize ending id
    else before.standing id
  page_eq : ∀ ref, (∀ id ∈ pages, before.cache.peek? id ≠ some ref) →
    after.page ref = before.page ref

variable {pool before middle after : Pool} {ending : Ending} {tx : TxId} {id : PageId}
  {ref : PageRef} {pages : List PageId}

theorem Pool.Settles.coherent (h : before.Settles ending pages after) (hbefore : before.Coherent) :
    after.Coherent where
  toSound := h.sound
  coherent id := by
    rw [h.standing_eq]
    split
    · exact (hbefore.coherent id).settle
    · exact hbefore.coherent id

theorem Pool.peek?_eq_of_standing (h : after.standing id = before.standing id) :
    after.cache.peek? id = before.cache.peek? id := by
  cases hpeek : before.cache.peek? id with
  | some ref =>
      have hcached := standing_cached hpeek
      rw [← h] at hcached
      exact (standing_cached_iff.1 hcached).1
  | none =>
      have hcached := standing_cached_none hpeek
      rw [← h] at hcached
      exact Option.map_eq_none_iff.1 hcached

theorem Pool.Settles.cons (h : before.Settles ending [id] middle)
    (h' : middle.Settles ending pages after) (hnew : id ∉ pages) :
    before.Settles ending (id :: pages) after where
  sound := h'.sound
  pageSize_eq := h'.pageSize_eq.trans h.pageSize_eq
  tables_eq := h'.tables_eq.trans h.tables_eq
  locks_eq := h'.locks_eq.trans h.locks_eq
  next_eq := h'.next_eq.trans h.next_eq
  standing_eq other := by
    rw [h'.standing_eq, h.standing_eq, h.pageSize_eq]
    by_cases hsame : other = id
    · subst hsame
      simp [hnew]
    · simp [hsame]
  page_eq ref hothers := by
    rw [List.forall_mem_cons] at hothers
    have hmiddle : middle.page ref = before.page ref :=
      h.page_eq ref (by simpa using hothers.1)
    refine (h'.page_eq ref fun other hmem => ?_).trans hmiddle
    have hne : other ≠ id := by
      rintro rfl
      exact hnew hmem
    have hstanding : middle.standing other = before.standing other := by
      rw [h.standing_eq, if_neg (by simpa using hne)]
    rw [peek?_eq_of_standing hstanding]
    exact hothers.2 other hmem

theorem Pool.Concludes.cons (h : before.Concludes ending [id] middle)
    (h' : middle.Concludes ending pages after) (hnew : id ∉ pages) :
    before.Concludes ending (id :: pages) after where
  sound := h'.sound
  retains := h.retains.trans h'.retains
  locks_eq := h'.locks_eq.trans h.locks_eq
  standing_eq other := by
    rw [h'.standing_eq, h.standing_eq, h.retains.pageSize_eq]
    by_cases hsame : other = id
    · subst hsame
      simp [hnew]
    · simp [hsame]
  page_eq ref hothers := by
    rw [List.forall_mem_cons] at hothers
    refine (h'.page_eq ref fun other hmem => ?_).trans (h.page_eq ref (by simpa using hothers.1))
    rw [h.retains.cache_eq]
    exact hothers.2 other hmem

/-- Where storage agrees with the clean objects, the pages are settled. -/
theorem Pool.Concludes.settles (h : before.Concludes ending pages after)
    (hcoherent : ∀ id ∈ pages, (before.standing id).Coherent id) :
    before.Settles ending pages after where
  sound := h.sound
  pageSize_eq := h.retains.pageSize_eq
  tables_eq := h.retains.tables_eq
  locks_eq := h.locks_eq
  next_eq := h.retains.next_eq
  standing_eq id := by
    rw [h.standing_eq]
    split
    · next hmem => rw [(hcoherent id hmem).conclude_eq]
    · rfl
  page_eq := h.page_eq

theorem Pool.Sound.concludes_absent (hsound : pool.Sound) (hpeek : pool.cache.peek? id = none) :
    pool.Concludes ending [id] pool where
  sound := hsound
  retains := .refl pool
  locks_eq := rfl
  standing_eq other := by
    split
    · next hmem =>
      rw [List.mem_singleton] at hmem
      rw [hmem, conclude_of_absent (standing_cached_none hpeek)]
    · rfl
  page_eq _ _ := rfl

theorem Pool.Rewrites.concludes {page : Page} {stored : Option Bytes}
    (h : before.Rewrites after id ref page stored) (hpeek : before.cache.peek? id = some ref)
    (hpage : page = Page.load id ((before.standing id).outcome before.pageSize ending))
    (hstored : stored = if (before.page ref).sent ending then
      some ((before.standing id).outcome before.pageSize ending) else before.stored? id) :
    before.Concludes ending [id] after where
  sound := h.sound
  retains := h.retains
  locks_eq := h.locks_eq
  standing_eq other := by
    rw [h.standing_eq]
    by_cases hsame : other = id
    · rw [if_pos hsame, if_pos (List.mem_singleton.2 hsame), hsame,
        conclude_of_cached (standing_cached hpeek), hpage, hstored]
      rfl
    · rw [if_neg hsame, if_neg (by simpa using hsame)]
  page_eq other hothers := by
    rw [h.page_eq, if_neg]
    rintro rfl
    exact hothers id (List.mem_singleton_self id) hpeek

section Pages

variable (hsound : pool.Sound) (hclosable : (pool.standing id).Closable tx pool.pageSize)
include hsound hclosable

theorem Pool.Sound.ends_commitPage :
    Ends (commitPage id) pool (fun _ after => pool.Concludes .commit [id] after)
      fun _ _ => False := by
  have hcommitted : ∀ {ref}, pool.cache.peek? id = some ref →
      (pool.standing id).outcome pool.pageSize .commit = (pool.page ref).data := fun hpeek =>
    content_of_cached (standing_cached hpeek)
  refine ends_commitPage_iff.2 ((hsound.ends_flushPage fun ref hpeek => ?_).mono ?_
    fun _ _ => False.elim)
  · exact (hclosable _ _ (standing_cached hpeek)).imp_right (·.length_data)
  rintro _ after (⟨rfl, hclean⟩ | ⟨ref, hpeek, hdirty, h⟩)
  · refine ⟨hsound.concludes_absent, fun ref hpeek => ?_⟩
    have hnamed := hsound.named hpeek
    have hstart := Rewrites.refl hsound hpeek
    refine (hstart.setPage (after.page ref).clearBeforeImage hnamed).concludes hpeek ?_ ?_
    · rw [hcommitted hpeek]
      exact Page.eq_load hnamed (hclean ref hpeek) rfl rfl
    · rw [Page.sent, hclean ref hpeek]
      rfl
  · have hnamed := hsound.named hpeek
    refine ⟨fun habsent => (by cases h.peek?.symm.trans habsent), fun object hobject => ?_⟩
    cases h.peek?.symm.trans hobject
    rw [h.page_self]
    refine (h.setPage (pool.page ref).flushed.clearBeforeImage hnamed).concludes hpeek ?_ ?_
    · rw [hcommitted hpeek]
      exact Page.eq_load hnamed rfl rfl rfl
    · rw [Page.sent, if_pos hdirty, hcommitted hpeek]

/-- An image comes back. Nothing is left to do on a page without an image. -/
theorem Pool.Sound.ends_rollbackPage :
    Ends (rollbackPage tx id) pool (fun _ after => pool.Concludes .abort [id] after)
      fun _ _ => False := by
  refine ends_rollbackPage_iff.2 ⟨hsound.concludes_absent, fun ref hpeek => ?_⟩
  have hcached := standing_cached hpeek
  have hnamed := hsound.named hpeek
  obtain ⟨hstored, hpage⟩ := hclosable _ _ hcached
  have hstart := Rewrites.refl hsound hpeek
  rw [if_neg fun hforeign => ?_]
  · refine ⟨fun restored hrestored => ?_, fun hrestored => ?_⟩
    · obtain ⟨image, himage, heq⟩ := Option.map_eq_some_iff.1 hrestored
      have hid : restored.id = id := heq ▸ hnamed
      have hdata : restored.data = image := heq ▸ rfl
      have hbase : (pool.standing id).outcome pool.pageSize .abort = restored.data := by
        apply (base_of_cached hcached).trans
        rw [himage, hdata, Option.getD_some]
      have hloaded : restored.clearBeforeImage =
          Page.load id ((pool.standing id).outcome pool.pageSize .abort) := by
        rw [hbase]
        exact Page.eq_load hid (heq ▸ rfl) rfl rfl
      have hset := hstart.setPage restored hid
      split
      · next hstolen =>
        have hlength := hdata ▸ hpage.length_image image himage
        refine (hset.ends_storePage hstored hid hlength Page.clearBeforeImage hid).mono ?_
          fun _ _ => False.elim
        intro _ after hafter
        refine hafter.concludes hpeek hloaded ?_
        rw [Page.sent, if_pos hstolen, hbase]
      · next hunstolen =>
        rw [ends_pure, hset.page_self]
        refine (hset.setPage restored.clearBeforeImage hid).concludes hpeek hloaded ?_
        rw [Page.sent, if_neg hunstolen]
    · have himage : (pool.page ref).beforeImage = none := Option.map_eq_none_iff.1 hrestored
      have hsettled := hpage.settled himage
      rw [if_neg (by simp [hsettled.dirty_eq])]
      refine hstart.concludes hpeek ?_ ?_
      · have hbase : (pool.standing id).outcome pool.pageSize .abort = (pool.page ref).data := by
          apply (base_of_cached hcached).trans
          rw [himage, Option.getD_none]
        rw [hbase]
        exact Page.eq_load hnamed hsettled.dirty_eq himage hsettled.stolen_eq
      · rw [Page.sent, hsettled.stolen_eq]
        rfl
  · obtain ⟨owner, howner⟩ := Option.isSome_iff_exists.1 hforeign.1
    exact hforeign.2 (hpage.own owner howner ▸ howner)

theorem Pool.Sound.ends_finishPage (ending : Ending) :
    Ends (finishPage ending tx id) pool (fun _ after => pool.Concludes ending [id] after)
      fun _ _ => False := by
  cases ending with
  | commit => exact hsound.ends_commitPage hclosable
  | abort => exact hsound.ends_rollbackPage hclosable

end Pages

theorem Pool.Sound.ends_finishPages (hsound : pool.Sound) (hnodup : pages.Nodup)
    (hclosable : ∀ id ∈ pages, (pool.standing id).Closable tx pool.pageSize) :
    Ends (pages.forM (finishPage ending tx)) pool
      (fun _ after => pool.Concludes ending pages after) fun _ _ => False := by
  induction pages generalizing pool with
  | nil => exact ⟨hsound, .refl pool, rfl, fun _ => (if_neg List.not_mem_nil).symm, fun _ _ => rfl⟩
  | cons id rest ih =>
      rw [List.nodup_cons] at hnodup
      rw [List.forall_mem_cons] at hclosable
      refine (hsound.ends_finishPage hclosable.1 ending).bind ?_ fun _ _ => False.elim
      intro _ middle hmiddle
      refine (ih hmiddle.sound hnodup.2 fun other hmem => ?_).mono
        (fun _ _ h => hmiddle.cons h hnodup.1) fun _ _ => False.elim
      have hne : other ∉ [id] := fun hsame =>
        hnodup.1 (List.mem_singleton.1 hsame ▸ hmem)
      rw [hmiddle.standing_eq, if_neg hne, hmiddle.retains.pageSize_eq]
      exact hclosable.2 other hmem

theorem Pool.Sound.closable (hsound : pool.Sound) (hcoherent : (pool.standing id).Coherent id)
    (hheld : HeldBy (pool.locks.table.records id) tx) :
    (pool.standing id).Closable tx pool.pageSize :=
  hcoherent.closable hheld fun _ hstored => hsound.length_stored hstored

theorem ends_finishPage (hsound : pool.Sound) (hcoherent : (pool.standing id).Coherent id)
    (hheld : HeldBy (pool.locks.table.records id) tx) :
    Ends (finishPage ending tx id) pool (fun _ after => pool.Settles ending [id] after)
      fun _ _ => False := by
  refine (hsound.ends_finishPage (hsound.closable hcoherent hheld) ending).mono ?_ fun _ _ h => h
  exact fun _ _ h => h.settles (List.forall_mem_singleton.2 hcoherent)

/-- The pool after a transaction has ended. -/
structure Pool.Finishes (ending : Ending) (tx : TxId) (before after : Pool) : Prop where
  coherent : after.Coherent
  pageSize_eq : after.pageSize = before.pageSize
  tables_eq : after.tables = before.tables
  next_eq : after.frames.next = before.frames.next
  held_eq : ∀ id, HeldBy (before.locks.table.records id) tx →
    after.standing id = ((before.standing id).settle before.pageSize ending id).unlock tx
  others_eq : ∀ id, ¬HeldBy (before.locks.table.records id) tx →
    after.standing id = before.standing id
  page_eq : ∀ ref, (∀ id, HeldBy (before.locks.table.records id) tx →
    before.cache.peek? id ≠ some ref) → after.page ref = before.page ref
  targets_eq : after.locks.graph.targets tx = []
  not_mem_targets : ∀ other, tx ∉ after.locks.graph.targets other

theorem standing_complete (pool : Pool) (tx : TxId) (id : PageId) :
    Pool.standing { pool with locks := (pool.locks.complete tx).2 } id =
      (pool.standing id).unlock tx := by
  have hrecords : (pool.locks.complete tx).2.table.records id =
      (pool.standing id).records.filter (·.tx ≠ tx) :=
    LockTable.records_complete pool.locks.table tx id
  change Standing.mk _ _ _ = _
  rw [hrecords]
  rfl

/-- Once all of its pages are settled, a transaction gives up its locks. -/
theorem Pool.Settles.finishes (hsettles : pool.Settles ending (pool.locks.table.related tx) middle)
    (hpool : pool.Coherent) :
    pool.Finishes ending tx { middle with locks := (middle.locks.complete tx).2 } := by
  have hcoherent := hsettles.coherent hpool
  have hstanding := standing_complete middle tx
  have hheld : ∀ id, HeldBy (pool.locks.table.records id) tx →
      middle.standing id = (pool.standing id).settle pool.pageSize ending id := fun id hheld => by
    rw [hsettles.standing_eq, if_pos (LockTable.mem_related_iff.2 hheld)]
  have hothers : ∀ id, ¬HeldBy (pool.locks.table.records id) tx →
      middle.standing id = pool.standing id := fun id hfree => by
    rw [hsettles.standing_eq, if_neg fun hmem => hfree (LockTable.mem_related_iff.1 hmem)]
  have hsound := hsettles.sound
  refine ⟨⟨⟨hsound.nodup, hsound.inside, hsound.named, hsound.backed, hsound.reliable,
    hsound.apart⟩, fun id => ?_⟩, hsettles.pageSize_eq, hsettles.tables_eq, hsettles.next_eq,
    fun id hid => ?_, fun id hid => ?_, fun ref hothers => ?_, ?_, fun other => ?_⟩
  · rw [hstanding]
    refine (hcoherent.coherent id).unlock fun ref page hcached howner => ?_
    have hid : HeldBy (pool.locks.table.records id) tx := by
      have hlocks : middle.locks = pool.locks := hsettles.locks_eq
      exact hlocks ▸ howner.heldBy
    rw [hheld id hid] at hcached
    exact imageless_settle hcached
  · rw [hstanding, hheld id hid]
  · rw [hstanding, hothers id hid, unlock_eq_self hid]
  · exact hsettles.page_eq ref fun id hmem => hothers id (LockTable.mem_related_iff.1 hmem)
  · exact (WaitForGraph.targets_removeTransaction _ tx tx).trans (if_pos rfl)
  · have htargets := WaitForGraph.targets_removeTransaction middle.locks.graph tx other
    change tx ∉ (middle.locks.graph.removeTransaction tx).targets other
    rw [htargets]
    split
    · exact List.not_mem_nil
    · simp

/-- What the end of a transaction does, down to the cache and the lock manager. -/
structure Pool.Departs (ending : Ending) (tx : TxId) (before after : Pool) : Prop where
  finishes : before.Finishes ending tx after
  retains : before.Retains after
  locks_eq : after.locks = (before.locks.complete tx).2

/-- The same where storage may have other bytes than the clean objects, and keeps them. -/
structure Pool.Closes (ending : Ending) (tx : TxId) (before after : Pool) : Prop where
  retains : before.Retains after
  locks_eq : after.locks = (before.locks.complete tx).2
  held_eq : ∀ id, HeldBy (before.locks.table.records id) tx →
    after.standing id = ((before.standing id).conclude before.pageSize ending id).unlock tx
  others_eq : ∀ id, ¬HeldBy (before.locks.table.records id) tx →
    after.standing id = before.standing id
  page_eq : ∀ ref, (∀ id, HeldBy (before.locks.table.records id) tx →
    before.cache.peek? id ≠ some ref) → after.page ref = before.page ref

/-- A transaction can always be ended, and then it has no locks. -/
theorem Pool.Sound.ends_finish (hsound : pool.Sound) (ending : Ending)
    (hclosable : ∀ id, HeldBy (pool.locks.table.records id) tx →
      (pool.standing id).Closable tx pool.pageSize) :
    Ends (finish ending tx) pool
      (fun _ after => ∃ middle, pool.Concludes ending (pool.locks.table.related tx) middle ∧
        after = { middle with locks := (middle.locks.complete tx).2 })
      fun _ _ => False := by
  unfold finish
  rw [ends_bind, ends_get]
  refine (hsound.ends_finishPages LockTable.nodup_related fun id hmem =>
    hclosable id (LockTable.mem_related_iff.1 hmem)).bind ?_ fun _ _ => False.elim
  exact fun _ middle hmiddle => ⟨middle, hmiddle, rfl⟩

theorem Pool.Concludes.closes
    (h : pool.Concludes ending (pool.locks.table.related tx) middle) :
    pool.Closes ending tx { middle with locks := (middle.locks.complete tx).2 } where
  retains := h.retains.trans (.complete middle tx)
  locks_eq := congrArg (fun locks => (locks.complete tx).2) h.locks_eq
  held_eq id hheld := by
    rw [standing_complete, h.standing_eq, if_pos (LockTable.mem_related_iff.2 hheld)]
  others_eq id hfree := by
    have hother : id ∉ pool.locks.table.related tx := fun hmem =>
      hfree (LockTable.mem_related_iff.1 hmem)
    rw [standing_complete, h.standing_eq, if_neg hother]
    exact unlock_eq_self hfree
  page_eq ref hothers := h.page_eq ref fun id hmem => hothers id (LockTable.mem_related_iff.1 hmem)

theorem Pool.Concludes.departs
    (h : pool.Concludes ending (pool.locks.table.related tx) middle) (hpool : pool.Coherent) :
    pool.Departs ending tx { middle with locks := (middle.locks.complete tx).2 } where
  finishes := (h.settles fun id _ => hpool.coherent id).finishes hpool
  retains := h.closes.retains
  locks_eq := h.closes.locks_eq

theorem ends_finish_departs (hpool : pool.Coherent) (ending : Ending) (tx : TxId) :
    Ends (finish ending tx) pool (fun _ after => pool.Departs ending tx after)
      fun _ _ => False := by
  refine (hpool.toSound.ends_finish ending fun id hheld =>
    hpool.toSound.closable (hpool.coherent id) hheld).mono ?_ fun _ _ => False.elim
  rintro _ _ ⟨middle, hmiddle, rfl⟩
  exact hmiddle.departs hpool

theorem Pool.Coherent.settle_eq (hpool : pool.Coherent) (ending : Ending)
    (hclean : ∀ ref, pool.cache.peek? id = some ref → (pool.page ref).beforeImage = none) :
    (pool.standing id).settle pool.pageSize ending id = pool.standing id := by
  cases hpeek : pool.cache.peek? id with
  | none => exact settle_of_absent (standing_cached_none hpeek)
  | some ref =>
      have hcached := standing_cached hpeek
      obtain ⟨bytes, _, _, hfaithful⟩ := (hpool.coherent id).resident _ _ hcached
      rw [← (hpool.coherent id).conclude_eq]
      exact conclude_eq_self hcached (hpool.named hpeek) (hfaithful.settled (hclean ref hpeek))

theorem Pool.Finishes.standing_eq_of_unowned (h : before.Finishes ending tx after)
    (hbefore : before.Coherent)
    (hunowned : ¬OwnedBy (before.locks.table.records id) tx) :
    after.standing id = (before.standing id).unlock tx := by
  by_cases hheld : HeldBy (before.locks.table.records id) tx
  · rw [h.held_eq id hheld, hbefore.settle_eq]
    intro ref hpeek
    obtain ⟨bytes, _, _, hfaithful⟩ :=
      (hbefore.coherent id).resident _ _ (standing_cached hpeek)
    rcases hfaithful with hsettled | ⟨owner, _, howner, _⟩
    · exact hsettled.image_eq
    · have := (hbefore.coherent id).compatible.heldBy_eq howner hheld
      exact absurd (this ▸ howner) hunowned
  · rw [h.others_eq id hheld]
    exact (unlock_eq_self hheld).symm

theorem Pool.Finishes.records_eq (h : before.Finishes ending tx after) (id : PageId) :
    (after.standing id).records = (before.standing id).records.filter (·.tx ≠ tx) := by
  by_cases hheld : HeldBy (before.locks.table.records id) tx
  · rw [h.held_eq id hheld, unlock, records_settle]
  · rw [h.others_eq id hheld]
    exact (congrArg Standing.records (unlock_eq_self hheld)).symm

theorem Pool.Finishes.heldBy_iff {other : TxId} (h : before.Finishes ending tx after)
    (id : PageId) : HeldBy (after.locks.table.records id) other ↔
      HeldBy (before.locks.table.records id) other ∧ other ≠ tx := by
  change HeldBy (after.standing id).records other ↔ _
  rw [h.records_eq]
  exact heldBy_filter_ne

theorem Pool.Finishes.ownedBy_iff {other : TxId} (h : before.Finishes ending tx after)
    (id : PageId) : OwnedBy (after.locks.table.records id) other ↔
      OwnedBy (before.locks.table.records id) other ∧ other ≠ tx := by
  change OwnedBy (after.standing id).records other ↔ _
  rw [h.records_eq]
  exact ownedBy_filter_ne

end Finish

end PagePool
