import PagePool.Proofs.Pool.Retains

/-!
# What a flush does

A flush takes the dirty objects among some pages to storage and marks them clean. It is the same on
every page, whichever of the flushes it belongs to, and a page that is flushed twice is flushed.
-/

namespace PagePool

open LockRecord Standing Pool

namespace Page

/-- The page after a flush, which leaves a clean page alone. -/
def cleaned (page : Page) : Page :=
  if page.dirty.isSome then page.flushed else page

variable (page : Page)

theorem cleaned_of_clean {page : Page} (h : page.dirty = none) : page.cleaned = page := by
  simp [cleaned, h]

theorem cleaned_of_dirty {page : Page} (h : page.dirty.isSome) : page.cleaned = page.flushed := by
  simp [cleaned, h]

@[simp]
theorem id_cleaned : page.cleaned.id = page.id := by
  unfold cleaned
  split <;> rfl

@[simp]
theorem data_cleaned : page.cleaned.data = page.data := by
  unfold cleaned
  split <;> rfl

@[simp]
theorem beforeImage_cleaned : page.cleaned.beforeImage = page.beforeImage := by
  unfold cleaned
  split <;> rfl

@[simp]
theorem dirty_cleaned : page.cleaned.dirty = none := by
  unfold cleaned
  split
  · rfl
  · next h => simpa using h

end Page

namespace Standing

/-- The page with its object in storage, if it is dirty. -/
def flush (standing : Standing) : Standing :=
  match standing.cached with
  | none => standing
  | some (ref, object) =>
      if object.dirty.isSome then
        { standing with cached := some (ref, object.flushed), stored := some object.data }
      else standing

variable {standing : Standing} {ref : PageRef} {page : Page}

theorem flush_of_absent (h : standing.cached = none) : standing.flush = standing := by
  simp only [flush, h]

theorem flush_of_clean (h : standing.cached = some (ref, page)) (hclean : page.dirty = none) :
    standing.flush = standing := by
  simp [flush, h, hclean]

theorem flush_of_dirty (h : standing.cached = some (ref, page)) (hdirty : page.dirty.isSome) :
    standing.flush =
      { standing with cached := some (ref, page.flushed), stored := some page.data } := by
  simp [flush, h, hdirty]

theorem flush_flush (standing : Standing) : standing.flush.flush = standing.flush := by
  cases hcached : standing.cached with
  | none => rw [flush_of_absent hcached, flush_of_absent hcached]
  | some entry =>
      by_cases hdirty : entry.2.dirty.isSome
      · rw [flush_of_dirty hcached hdirty]
        exact flush_of_clean rfl rfl
      · have hclean : entry.2.dirty = none := by simpa using hdirty
        rw [flush_of_clean hcached hclean, flush_of_clean hcached hclean]

end Standing

namespace Pool

/-- The pages that satisfy a property have been flushed, and nothing else has been done. -/
structure Flushes (which : PageId → Prop) (before after : Pool) : Prop where
  evolves : ∀ tx, Evolves .flush tx before after
  retains : before.Retains after
  locks_eq : after.locks = before.locks
  standing_eq : ∀ id, which id → after.standing id = (before.standing id).flush
  others_eq : ∀ id, ¬which id → after.standing id = before.standing id
  page_eq : ∀ ref, after.page ref = before.page ref ∨ after.page ref = (before.page ref).cleaned

namespace Flushes

variable {which : PageId → Prop} {before middle after : Pool} {id : PageId} {pages : List PageId}

theorem coherent (h : before.Flushes which after) (hbefore : before.Coherent) : after.Coherent :=
  (h.evolves 0).coherent hbefore

theorem nil {pool : Pool} (h : pool.Sound) : pool.Flushes (· ∈ []) pool where
  evolves _ := .refl h
  retains := .refl pool
  locks_eq := rfl
  standing_eq _ hmem := by cases hmem
  others_eq _ _ := rfl
  page_eq _ := .inl rfl

theorem cons (h : before.Flushes (· = id) middle) (h' : middle.Flushes (· ∈ pages) after) :
    before.Flushes (· ∈ id :: pages) after where
  evolves tx := (h.evolves tx).trans (h'.evolves tx)
  retains := h.retains.trans h'.retains
  locks_eq := h'.locks_eq.trans h.locks_eq
  standing_eq other hmem := by
    by_cases hrest : other ∈ pages
    · rw [h'.standing_eq other hrest]
      by_cases hsame : other = id
      · rw [h.standing_eq other hsame, flush_flush]
      · rw [h.others_eq other hsame]
    · rw [h'.others_eq other hrest]
      exact h.standing_eq other ((List.mem_cons.1 hmem).resolve_right hrest)
  others_eq other hmem := by
    rw [List.mem_cons, not_or] at hmem
    rw [h'.others_eq other hmem.2, h.others_eq other hmem.1]
  page_eq ref := by
    have hcleaned : ∀ page : Page, page.cleaned.cleaned = page.cleaned := fun page =>
      Page.cleaned_of_clean page.dirty_cleaned
    rcases h'.page_eq ref with hlast | hlast <;> rcases h.page_eq ref with hfirst | hfirst <;>
      rw [hlast, hfirst]
    · exact .inl rfl
    · exact .inr rfl
    · exact .inr rfl
    · exact .inr (hcleaned _)

/-- A page that is not in the cache is not changed by a flush. -/
theorem of_resident (h : before.Flushes (· ∈ before.cache.pages) after) :
    before.Flushes (fun _ => True) after where
  evolves := h.evolves
  retains := h.retains
  locks_eq := h.locks_eq
  standing_eq id _ := by
    by_cases hmem : id ∈ before.cache.pages
    · exact h.standing_eq id hmem
    · have habsent : before.cache.peek? id = none := by
        rw [Cache.peek?, Option.map_eq_none_iff, List.find?_eq_none]
        rintro entry hentry hid
        exact hmem (List.mem_map.2 ⟨entry, hentry, by simpa using hid⟩)
      rw [h.others_eq id hmem, flush_of_absent (standing_cached_none habsent)]
  others_eq _ hfalse := absurd trivial hfalse
  page_eq := h.page_eq

end Flushes

end Pool

section Steps

variable {pool : Pool}

/-- A flush writes a dirty object to storage, and does nothing else. -/
theorem Pool.Sound.ends_flushPage (hsound : pool.Sound) {id : PageId}
    (hhoused : ∀ ref, pool.cache.peek? id = some ref →
      (pool.stored? id).isSome ∧ (pool.page ref).data.length = pool.pageSize) :
    Ends (flushPage id) pool
      (fun _ after =>
        (after = pool ∧ ∀ ref, pool.cache.peek? id = some ref → (pool.page ref).dirty = none) ∨
        ∃ ref, pool.cache.peek? id = some ref ∧ (pool.page ref).dirty.isSome ∧
          pool.Rewrites after id ref (pool.page ref).flushed (some (pool.page ref).data))
      (fun _ _ => False) := by
  refine ends_flushPage_iff.2 ⟨fun hclean => .inl ⟨rfl, hclean⟩, fun ref hpeek hdirty => ?_⟩
  obtain ⟨hstored, hlength⟩ := hhoused ref hpeek
  have hnamed := hsound.named hpeek
  exact ((Rewrites.refl hsound hpeek).ends_storePage hstored hnamed hlength _ hnamed).mono
    (fun _ _ h => .inr ⟨ref, hpeek, hdirty, h⟩) fun _ _ => False.elim

/-- In a flush of a dirty object nothing can be told from the bytes of the pages. -/
theorem Pool.Rewrites.evolves {after : Pool} {id : PageId} {ref : PageRef}
    (h : pool.Rewrites after id ref (pool.page ref).flushed (some (pool.page ref).data))
    (hpeek : pool.cache.peek? id = some ref) (hdirty : (pool.page ref).dirty.isSome) (tx : TxId) :
    Evolves .flush tx pool after := by
  have hpages : ∀ other, (after.page other).id = (pool.page other).id ∧
      (after.page other).data = (pool.page other).data := by
    intro other
    rw [h.page_eq]
    split
    · next hother => exact hother ▸ ⟨rfl, rfl⟩
    · exact ⟨rfl, rfl⟩
  refine ⟨h.sound, h.retains.pageSize_eq, h.retains.tables_eq, Nat.le_of_eq h.retains.next_eq.symm,
    fun other => ?_, fun other _ => (hpages other).1, fun _ other _ => (hpages other).2,
    fun {other object} hobject => .inl ?_⟩
  · rw [h.standing_eq]
    split
    · next hother =>
      subst hother
      exact .single (.flush rfl (standing_cached hpeek) hdirty)
    · exact .refl
  · rwa [h.retains.cache_eq] at hobject

variable (hpool : pool.Coherent)
include hpool

theorem ends_flushPage_flushes (id : PageId) :
    Ends (flushPage id) pool (fun _ after => pool.Flushes (· = id) after) fun _ _ => False := by
  refine (hpool.toSound.ends_flushPage fun ref hpeek => ?_).mono ?_ fun _ _ => False.elim
  · obtain ⟨bytes, hstored, hlength, _⟩ :=
      (hpool.coherent id).resident _ _ (standing_cached hpeek)
    have hbytes : pool.stored? id = some bytes := hstored
    exact ⟨Option.isSome_iff_exists.2 ⟨bytes, hbytes⟩,
      hlength.trans (hpool.length_stored hbytes)⟩
  rintro _ after (⟨rfl, hclean⟩ | ⟨ref, hpeek, hdirty, h⟩)
  · refine ⟨fun _ => .refl hpool.toSound, .refl _, rfl, ?_, fun _ _ => rfl, fun _ => .inl rfl⟩
    rintro other rfl
    cases hpeek : after.cache.peek? other with
    | none => exact (flush_of_absent (standing_cached_none hpeek)).symm
    | some ref => exact (flush_of_clean (standing_cached hpeek) (hclean ref hpeek)).symm
  · refine ⟨h.evolves hpeek hdirty, h.retains, h.locks_eq, ?_, ?_, fun other => ?_⟩
    · rintro _ rfl
      rw [h.standing_eq, if_pos rfl, flush_of_dirty (standing_cached hpeek) hdirty]
    · intro other hne
      rw [h.standing_eq, if_neg hne]
    · rw [h.page_eq]
      split
      · next hsame => exact .inr (hsame ▸ (Page.cleaned_of_dirty hdirty).symm)
      · exact .inl rfl

theorem ends_flushPages_flushes (pages : List PageId) :
    Ends (pages.forM flushPage) pool (fun _ after => pool.Flushes (· ∈ pages) after)
      fun _ _ => False := by
  induction pages generalizing pool with
  | nil => exact .nil hpool.toSound
  | cons id rest ih =>
      refine (ends_flushPage_flushes hpool id).bind ?_ fun _ _ => False.elim
      intro _ middle hmiddle
      exact (ih (hmiddle.coherent hpool)).mono (fun _ _ h => hmiddle.cons h) fun _ _ => False.elim

theorem ends_flushTransaction_flushes (tx : TxId) :
    Ends (flushTransaction tx) pool
      (fun _ after => pool.Flushes (· ∈ pool.locks.table.related tx) after) fun _ _ => False := by
  unfold flushTransaction
  rw [ends_bind, ends_get]
  exact ends_flushPages_flushes hpool _

theorem ends_flushAll_flushes :
    Ends flushAll pool (fun _ after => pool.Flushes (fun _ => True) after) fun _ _ => False := by
  unfold flushAll
  rw [ends_bind, ends_get]
  exact (ends_flushPages_flushes hpool _).mono (fun _ _ h => h.of_resident) fun _ _ => False.elim

end Steps

end PagePool
