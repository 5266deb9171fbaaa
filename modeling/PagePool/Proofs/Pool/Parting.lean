import PagePool.Pool.Completion
import PagePool.Proofs.Pool.Tenure

/-!
# Endings leave other writers their pages

A flush, a commit or an abort goes page by page. It changes the pages of the transaction that ends,
which nobody else owns, and if it fails on its way, then the locks are still there and so are the
pages.
-/

namespace PagePool

open LockRecord Pool

namespace Pool

/-- What is done to one page on the way of a flush or of an ending: all others stay, and the cache
too where rules count. -/
structure Treats (regime : Regime) (tx : TxId) (drops : PageId → Prop) (id : PageId)
    (before after : Pool) : Prop where
  drifts : Drifts regime tx drops before after
  locks_eq : after.locks = before.locks
  cache_eq : regime ≠ .free → after.cache = before.cache
  others : regime ≠ .free → ∀ {other ref}, other ≠ id → before.cache.peek? other = some ref →
    after.page ref = before.page ref

variable {regime : Regime} {tx : TxId} {drops : PageId → Prop} {id : PageId}
  {pool before middle after : Pool}

/-- A resident page has no image that an abort would put back. -/
def Imageless (pool : Pool) (id : PageId) : Prop :=
  ∀ ref, pool.cache.peek? id = some ref → (pool.page ref).beforeImage = none

theorem Treats.refl (h : pool.Tidy regime) : Treats regime tx drops id pool pool :=
  ⟨.refl h, rfl, fun _ => rfl, fun _ _ _ _ _ => rfl⟩

theorem Treats.trans (h : Treats regime tx drops id before middle)
    (h' : Treats regime tx drops id middle after) : Treats regime tx drops id before after where
  drifts := h.drifts.trans h'.drifts
  locks_eq := h'.locks_eq.trans h.locks_eq
  cache_eq hkeeps := (h'.cache_eq hkeeps).trans (h.cache_eq hkeeps)
  others hkeeps _ _ hne hpeek := by
    refine (h'.others hkeeps hne ?_).trans (h.others hkeeps hne hpeek)
    rwa [h.cache_eq hkeeps]

theorem Treats.setPage {ref : PageRef} {page : Page} (h : pool.Tidy regime)
    (hpeek : pool.cache.peek? id = some ref)
    (hdrifts : Drifts regime tx drops pool (pool.setPage ref page)) :
    Treats regime tx drops id pool (pool.setPage ref page) := by
  refine ⟨hdrifts, rfl, fun _ => rfl, fun _ other object hne hother => ?_⟩
  rw [page_setPage, if_neg]
  intro hsame
  exact hne (h.ref_inj hother (hsame.1 ▸ hpeek))

theorem Treats.setVolume {target : VolumeRef} {volume : Volume}
    (hdrifts : Drifts regime tx drops pool (pool.setVolume target volume)) :
    Treats regime tx drops id pool (pool.setVolume target volume) :=
  ⟨hdrifts, rfl, fun _ => rfl, fun _ _ _ _ _ => rfl⟩

/-- Where storage does not fail, a page that it has can be written. -/
theorem ends_storePage {page : Page} (hid : page.id = id)
    (hreliable : regime = .strict → ∀ table ∈ pool.tables,
      (pool.volume table.volume).Reliable pool.pageSize)
    (hstored : regime = .strict → (pool.stored? id).isSome)
    (hlength : regime = .strict → page.data.length = pool.pageSize) :
    Ends (storePage id page) pool
      (fun _ after => ∃ target volume, after = pool.setVolume target volume ∧
        (regime = .strict → (pool.volume target).Lasts pool.pageSize volume))
      (fun _ after => (after = pool ∨ ∃ target volume, after = pool.setVolume target volume) ∧
        regime ≠ .strict) := by
  unfold storePage
  by_cases hstrict : regime = .strict
  · obtain ⟨old, hold⟩ := Option.isSome_iff_exists.1 (hstored hstrict)
    obtain ⟨table, htable, hold⟩ := Option.bind_eq_some_iff.1 hold
    refine (ends_getTable_of_eq htable).bind ?_ fun _ _ => False.elim
    intro found middle hmiddle
    obtain ⟨rfl, rfl⟩ := hmiddle
    rw [ends_writeStored_iff]
    have hwrite := (Volume.ends_writePage
      (hreliable hstrict found (List.mem_of_find?_eq_some htable)) page (hid ▸ hold)
      (hlength hstrict)).and (Volume.ends_writeAt_lasts _ (hlength hstrict))
    exact hwrite.mono (fun _ volume hafter => ⟨_, volume, rfl, fun _ => hafter.2⟩)
      fun _ _ hfails => hfails.1.elim
  · refine (ends_getTable id.table pool).bind ?_ fun _ _ hafter => ⟨.inl hafter, hstrict⟩
    intro table middle hmiddle
    obtain ⟨rfl, _⟩ := hmiddle
    rw [ends_writeStored_iff]
    unfold Ends
    split
    · exact ⟨_, _, rfl, fun hstrict' => absurd hstrict' hstrict⟩
    · exact ⟨.inr ⟨_, _, rfl⟩, hstrict⟩

theorem treats_written (h : pool.Tidy regime) (hloose : regime ≠ .strict)
    (hafter : after = pool ∨ ∃ target volume, after = pool.setVolume target volume) :
    Treats regime tx drops id pool after := by
  rcases hafter with rfl | ⟨target, volume, rfl⟩
  · exact .refl h
  · exact .setVolume (.setVolume h fun hstrict => absurd hstrict hloose)

namespace Tidy

variable (h : pool.Tidy regime)
include h

theorem ends_flushPage (tx : TxId) (drops : PageId → Prop) (id : PageId) :
    Ends (flushPage id) pool
      (fun _ after => Treats regime tx drops id pool after ∧ after.cache = pool.cache ∧
        ∀ ref, pool.cache.peek? id = some ref → (after.page ref).dirty = none)
      (fun _ after => Treats regime tx drops id pool after ∧ regime ≠ .strict) := by
  refine ends_flushPage_iff.2 ⟨fun hclean => ⟨.refl h, rfl, hclean⟩, fun ref hpeek _ => ?_⟩
  have hkept := h.kept hpeek
  refine (ends_storePage (h.named hpeek) h.reliable (fun hstrict => h.stored hstrict hpeek)
    hkept.length_data).mono ?_ fun _ _ hfails => ⟨treats_written h hfails.2 hfails.1, hfails.2⟩
  intro _ written hwritten
  obtain ⟨target, volume, rfl, hlasts⟩ := hwritten
  have htreats : Treats regime tx drops id pool (pool.setVolume target volume) :=
    .setVolume (.setVolume h hlasts)
  have hpeek' : (pool.setVolume target volume).cache.peek? id = some ref := hpeek
  have hflushed : Treats regime tx drops id (pool.setVolume target volume)
      ((pool.setVolume target volume).setPage ref (pool.page ref).flushed) := by
    refine .setPage htreats.drifts.tidy hpeek' (.setPage htreats.drifts.tidy rfl ?_ ?_)
    · intro _
      change (pool.page ref).flushed.Kept regime _ (pool.locks.table.records (pool.page ref).id)
      rw [h.named hpeek]
      exact hkept.flushed
    · exact fun _ _ _ himage => himage
  refine ⟨htreats.trans hflushed, rfl, fun object hobject => ?_⟩
  cases hpeek.symm.trans hobject
  change ((Pool.setPage _ ref (pool.page ref).flushed).page ref).dirty = none
  rw [page_setPage, if_pos ⟨rfl, h.inside hpeek⟩]
  rfl

theorem ends_flushPages (tx : TxId) (drops : PageId → Prop) (ids : List PageId) :
    Ends (ids.forM flushPage) pool (fun _ after => Drifts regime tx drops pool after)
      (fun _ after => Drifts regime tx drops pool after ∧ regime ≠ .strict) := by
  induction ids generalizing pool with
  | nil => exact .refl h
  | cons id rest ih =>
      refine (h.ends_flushPage tx drops id).bind ?_ fun _ _ hfails => hfails.imp_left (·.drifts)
      intro _ middle hmiddle
      have hdrifts := hmiddle.1.drifts
      exact (ih hdrifts.tidy).mono (fun _ _ hafter => hdrifts.trans hafter)
        fun _ _ hfails => hfails.imp_left hdrifts.trans

section Held

variable (hheld : HeldBy (pool.locks.table.records id) tx)
include hheld

/-- A page that a transaction holds is nobody else's, so its image is the holder's to clear. -/
theorem treats_setPage {ref : PageRef} {page : Page} (hpeek : pool.cache.peek? id = some ref)
    (hid : page.id = id) (hkept : page.Kept regime pool.pageSize (pool.locks.table.records id)) :
    Treats regime tx (fun _ => True) id pool (pool.setPage ref page) := by
  refine .setPage h hpeek (.setPage h (hid.trans (h.named hpeek).symm) (fun _ => ?_) ?_)
  · rw [hid]
    exact hkept
  · intro owner hother howner
    rw [hid] at howner
    exact absurd ⟨((h.compatible id).heldBy_eq howner hheld).symm, trivial⟩ hother

theorem ends_commitPage :
    Ends (commitPage id) pool
      (fun _ after => Treats regime tx (fun _ => True) id pool after ∧
        after.Imageless id)
      (fun _ after => Treats regime tx (fun _ => True) id pool after ∧ regime ≠ .strict) := by
  refine ends_commitPage_iff.2 ((h.ends_flushPage tx (fun _ => True) id).mono ?_ fun _ _ h => h)
  intro _ middle hmiddle
  obtain ⟨htreats, hcache, hflushed⟩ := hmiddle
  have htidy := htreats.drifts.tidy
  refine ⟨fun habsent => ⟨htreats, fun ref hpeek => ?_⟩, fun ref hpeek => ?_⟩
  · cases habsent.symm.trans hpeek
  · have hcleared : Treats regime tx (fun _ => True) id middle
        (middle.setPage ref (middle.page ref).clearBeforeImage) :=
      htidy.treats_setPage (by rwa [htreats.locks_eq]) hpeek (htidy.named hpeek)
        ((htidy.kept hpeek).clearBeforeImage (hflushed ref (hcache ▸ hpeek)))
    refine ⟨htreats.trans hcleared, fun object hobject => ?_⟩
    cases hpeek.symm.trans hobject
    rw [page_setPage, if_pos ⟨rfl, htidy.inside hpeek⟩]
    rfl

/-- An abort puts the image back and then forgets it. -/
theorem treats_settled {ref : PageRef} {restored : Page} (hpeek : pool.cache.peek? id = some ref)
    (hrestored : (pool.page ref).restored? = some restored) :
    let after := (pool.setPage ref restored).setPage ref
      ((pool.setPage ref restored).page ref).clearBeforeImage
    Treats regime tx (fun _ => True) id pool after ∧ after.Imageless id := by
  have hnamed : restored.id = id := by
    obtain ⟨image, _, rfl⟩ := Option.map_eq_some_iff.1 hrestored
    exact h.named hpeek
  have hin := h.inside hpeek
  dsimp only
  rw [page_setPage, if_pos ⟨rfl, hin⟩, setPage_setPage]
  refine ⟨h.treats_setPage hheld hpeek hnamed ((h.kept hpeek).settled hrestored), ?_⟩
  intro object hobject
  have hsame : object = ref := Option.some.inj (hobject.symm.trans hpeek)
  rw [hsame, page_setPage, if_pos ⟨rfl, hin⟩]
  rfl

/-- An image that comes back goes to storage too, if the bytes of the transaction had gone there.
Storage may refuse it only where it may fail. -/
theorem ends_restore {ref : PageRef} {restored : Page} (hpeek : pool.cache.peek? id = some ref)
    (hrestored : (pool.page ref).restored? = some restored) :
    Ends (storePage id restored) (pool.setPage ref restored)
      (fun _ after => Treats regime tx (fun _ => True) id pool
          (after.setPage ref (after.page ref).clearBeforeImage) ∧
        (after.setPage ref (after.page ref).clearBeforeImage).Imageless id)
      (fun _ after => Treats regime tx (fun _ => True) id pool after ∧ regime ≠ .strict) := by
  have hkept := h.kept hpeek
  have hnamed : restored.id = id := by
    obtain ⟨image, _, rfl⟩ := Option.map_eq_some_iff.1 hrestored
    exact h.named hpeek
  have hlength : regime = .strict → restored.data.length = pool.pageSize := fun hstrict => by
    obtain ⟨image, himage, rfl⟩ := Option.map_eq_some_iff.1 hrestored
    exact hkept.length_image hstrict image himage
  have hwrite := @ends_storePage regime id (pool.setPage ref restored) restored hnamed h.reliable
    (fun hstrict => h.stored hstrict hpeek) hlength
  refine hwrite.mono (fun _ after hafter => ?_) fun _ after hfails => ?_
  · obtain ⟨target, volume, rfl, hlasts⟩ := hafter
    have hset : Drifts regime tx (fun _ => True) pool (pool.setVolume target volume) :=
      .setVolume h hlasts
    have hsettled := hset.tidy.treats_settled hheld hpeek hrestored
    exact ⟨(Treats.setVolume hset).trans hsettled.1, hsettled.2⟩
  · obtain ⟨hafter, hloose⟩ := hfails
    have htreats := h.treats_setPage hheld hpeek hnamed (Page.kept_restored hrestored hloose)
    exact ⟨htreats.trans (treats_written htreats.drifts.tidy hloose hafter), hloose⟩

theorem ends_rollbackPage :
    Ends (rollbackPage tx id) pool
      (fun _ after => Treats regime tx (fun _ => True) id pool after ∧
        (regime = .strict → after.Imageless id))
      (fun _ after => Treats regime tx (fun _ => True) id pool after ∧ regime ≠ .strict) := by
  refine ends_rollbackPage_iff.2 ⟨fun habsent => ⟨.refl h, fun _ ref hpeek => ?_⟩,
    fun ref hpeek => ?_⟩
  · cases habsent.symm.trans hpeek
  have hkept := h.kept hpeek
  split
  · next hforeign =>
    -- a dirty page is owned by the one who dirtied it, and the holder is here
    refine ⟨.refl h, fun hstrict => absurd hforeign.2 ?_⟩
    obtain ⟨owner, howner⟩ := Option.isSome_iff_exists.1 hforeign.1
    have hsame := (h.compatible id).heldBy_eq (hkept.owned_of_dirty hstrict owner howner) hheld
    rw [howner, hsame]
    exact not_not.2 rfl
  refine ⟨fun restored hrestored => ?_, fun hrestored => ?_⟩
  · split
    · exact (h.ends_restore hheld hpeek hrestored).mono
        (fun _ _ hafter => ⟨hafter.1, fun _ => hafter.2⟩) fun _ _ hfails => hfails
    · have hsettled := h.treats_settled hheld hpeek hrestored
      exact ⟨hsettled.1, fun _ => hsettled.2⟩
  · have hnone : (pool.page ref).beforeImage = none := Option.map_eq_none_iff.1 hrestored
    split
    · next hdirty =>
      -- only where anything goes is a page dirty that has no image
      have hfree : regime = .free := by
        by_contra hkeeps
        have := hkept.image_of_dirty hkeeps hdirty
        rw [hnone] at this
        cases this
      subst hfree
      exact ⟨⟨.remove h fun hkeeps => absurd rfl hkeeps, rfl, fun hkeeps => absurd rfl hkeeps,
        fun hkeeps => absurd rfl hkeeps⟩, nofun⟩
    · refine ⟨.refl h, fun _ object hobject => ?_⟩
      cases hpeek.symm.trans hobject
      exact hnone

theorem ends_finishPage (ending : Ending) :
    Ends (finishPage ending tx id) pool
      (fun _ after => Treats regime tx (fun _ => True) id pool after ∧
        (regime = .strict → after.Imageless id))
      (fun _ after => Treats regime tx (fun _ => True) id pool after ∧ regime ≠ .strict) := by
  cases ending with
  | commit =>
      exact (h.ends_commitPage hheld).mono (fun _ _ hafter => ⟨hafter.1, fun _ => hafter.2⟩)
        fun _ _ hfails => hfails
  | abort => exact h.ends_rollbackPage hheld

end Held

theorem ends_finishPages (ending : Ending) {ids : List PageId}
    (hheld : ∀ id ∈ ids, HeldBy (pool.locks.table.records id) tx) :
    Ends (ids.forM (finishPage ending tx)) pool
      (fun _ after => Drifts regime tx (fun _ => True) pool after ∧ after.locks = pool.locks ∧
        (regime = .strict → ∀ id, id ∈ ids ∨ pool.Imageless id → after.Imageless id))
      (fun _ after => Drifts regime tx (fun _ => True) pool after ∧ after.locks = pool.locks ∧
        (regime ≠ .free → after.cache = pool.cache) ∧ regime ≠ .strict) := by
  induction ids generalizing pool with
  | nil =>
      refine ⟨.refl h, rfl, fun _ id hclean => ?_⟩
      exact hclean.resolve_left List.not_mem_nil
  | cons id rest ih =>
      rw [List.forall_mem_cons] at hheld
      refine (h.ends_finishPage hheld.1 ending).bind ?_ fun _ _ hfails =>
        ⟨hfails.1.drifts, hfails.1.locks_eq, hfails.1.cache_eq, hfails.2⟩
      intro _ middle hmiddle
      obtain ⟨htreats, hsettled⟩ := hmiddle
      have hlocks := htreats.locks_eq
      refine (ih htreats.drifts.tidy fun other hmem => ?_).mono (fun _ after hafter => ?_)
        fun _ after hfails => ?_
      · rw [hlocks]
        exact hheld.2 other hmem
      · obtain ⟨hdrifts, hlocks', hclean⟩ := hafter
        refine ⟨htreats.drifts.trans hdrifts, hlocks'.trans hlocks, fun hstrict other hother => ?_⟩
        apply hclean hstrict
        by_cases hsame : other = id
        · exact .inr fun ref hpeek => hsettled hstrict ref (hsame ▸ hpeek)
        · refine hother.imp (fun hmem => (List.mem_cons.1 hmem).resolve_left hsame) fun hnone => ?_
          intro ref hpeek
          have hkeeps : regime ≠ .free := by simp [hstrict]
          rw [htreats.cache_eq hkeeps] at hpeek
          rw [htreats.others hkeeps hsame hpeek]
          exact hnone ref hpeek
      · obtain ⟨hdrifts, hlocks', hcache, hloose⟩ := hfails
        exact ⟨htreats.drifts.trans hdrifts, hlocks'.trans hlocks,
          fun hkeeps => (hcache hkeeps).trans (htreats.cache_eq hkeeps), hloose⟩

/-- A transaction leaves all of its pages. -/
theorem drifts_complete (tx : TxId)
    (hclean : regime = .strict → ∀ id, OwnedBy (pool.locks.table.records id) tx →
      pool.Imageless id) :
    Drifts regime tx (fun _ => True) pool { pool with locks := (pool.locks.complete tx).2 } := by
  refine @Drifts.unlock _ _ _ _ h tx _ fun id => .inr ⟨?_, fun _ _ => ⟨rfl, trivial⟩,
    fun hstrict howner => hclean hstrict id howner⟩
  exact LockTable.records_complete pool.locks.table tx id

theorem ends_finish (ending : Ending) (tx : TxId) :
    Ends (finish ending tx) pool (fun _ after => Drifts regime tx (fun _ => True) pool after)
      (fun _ after => Drifts regime tx (fun _ => True) pool after ∧ after.locks = pool.locks ∧
        (regime ≠ .free → after.cache = pool.cache) ∧ regime ≠ .strict) := by
  unfold finish
  rw [ends_bind, ends_get]
  refine (h.ends_finishPages ending fun id hmem => LockTable.mem_related_iff.1 hmem).bind ?_
    fun _ _ hfails => hfails
  intro _ middle hmiddle
  obtain ⟨hdrifts, hlocks, hclean⟩ := hmiddle
  unfold completeLocks
  rw [ends_bind, ends_bind, ends_get]
  dsimp only
  rw [ends_bind, ends_set, ends_pure, ends_pure]
  refine hdrifts.trans (hdrifts.tidy.drifts_complete tx fun hstrict id howner => ?_)
  rw [hlocks] at howner
  exact hclean hstrict id (.inl (LockTable.mem_related_iff.2 howner.heldBy))

end Tidy

end Pool

end PagePool
