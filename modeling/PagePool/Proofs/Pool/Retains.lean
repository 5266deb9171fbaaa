import PagePool.Proofs.Pool.Evolution
import PagePool.Proofs.Pool.Rules
import PagePool.Proofs.Storage.Outline

/-!
# What a write of one page leaves alone

A flush, a commit and an abort change page objects and the bytes in storage, one page after the
other. They do not use the cache, so the order in which pages were used stays, and no volume gets or
loses a page.
-/

namespace PagePool

open LockRecord Standing Pool

namespace Pool

def outline (pool : Pool) (ref : VolumeRef) : Volume.Outline :=
  (pool.volume ref).outline pool.pageSize

/-- The cache is the same, and so is all else but the pages of the two pools and their locks. -/
structure Retains (before after : Pool) : Prop where
  pageSize_eq : after.pageSize = before.pageSize
  tables_eq : after.tables = before.tables
  cache_eq : after.cache = before.cache
  next_eq : after.frames.next = before.frames.next
  latch_eq : ∀ ref, (after.frames.frame ref).latch = (before.frames.frame ref).latch
  outline_eq : ∀ ref, after.outline ref = before.outline ref

/-- The bytes of a page have gone to storage. -/
structure Deposits (before : Pool) (id : PageId) (data : Bytes) (after : Pool) : Prop where
  sound : after.Sound
  retains : before.Retains after
  locks_eq : after.locks = before.locks
  frames_eq : after.frames = before.frames
  stored?_eq : ∀ other, after.stored? other = if other = id then some data else before.stored? other

/-- What a pool is after a page has got a new object, and storage has what it is said to have. -/
structure Rewrites (before after : Pool) (id : PageId) (ref : PageRef) (page : Page)
    (stored : Option Bytes) : Prop where
  sound : after.Sound
  retains : before.Retains after
  locks_eq : after.locks = before.locks
  page_eq : ∀ other, after.page other = if other = ref then page else before.page other
  standing_eq : ∀ other, after.standing other =
    if other = id then { before.standing id with cached := some (ref, page), stored }
    else before.standing other

variable {pool before middle after : Pool} {id : PageId} {ref : PageRef} {tx : TxId} {table : Table}
  {page : Page} {data : Bytes} {stored : Option Bytes}

namespace Retains

theorem refl (pool : Pool) : pool.Retains pool where
  pageSize_eq := rfl
  tables_eq := rfl
  cache_eq := rfl
  next_eq := rfl
  latch_eq _ := rfl
  outline_eq _ := rfl

theorem trans (h : before.Retains middle) (h' : middle.Retains after) : before.Retains after where
  pageSize_eq := h'.pageSize_eq.trans h.pageSize_eq
  tables_eq := h'.tables_eq.trans h.tables_eq
  cache_eq := h'.cache_eq.trans h.cache_eq
  next_eq := h'.next_eq.trans h.next_eq
  latch_eq ref := (h'.latch_eq ref).trans (h.latch_eq ref)
  outline_eq ref := (h'.outline_eq ref).trans (h.outline_eq ref)

theorem setPage (pool : Pool) (ref : PageRef) (page : Page) :
    pool.Retains (pool.setPage ref page) where
  pageSize_eq := rfl
  tables_eq := rfl
  cache_eq := rfl
  next_eq := next_setPage pool ref page
  latch_eq other := by
    simp only [Pool.setPage, Frames.setPage, Frames.frame_setFrame]
    split
    · next h => rw [h.1]
    · rfl
  outline_eq _ := rfl

theorem setVolume (hsound : pool.Sound) {number : UInt32}
    (htable : pool.table? number = some table) {volume : Volume}
    (houtline : volume.outline pool.pageSize = pool.outline table.volume) :
    pool.Retains (pool.setVolume table.volume volume) where
  pageSize_eq := rfl
  tables_eq := rfl
  cache_eq := rfl
  next_eq := rfl
  latch_eq _ := rfl
  outline_eq other := by
    rw [outline, volume_setVolume hsound htable]
    split
    · next hsame => exact hsame ▸ houtline
    · rfl

theorem complete (pool : Pool) (tx : TxId) :
    pool.Retains { pool with locks := (pool.locks.complete tx).2 } :=
  ⟨rfl, rfl, rfl, rfl, fun _ => rfl, fun _ => rfl⟩

end Retains

theorem Deposits.standing_eq (h : before.Deposits id data after) (other : PageId) :
    after.standing other =
      if other = id then { before.standing id with stored := some data }
      else before.standing other := by
  simp only [standing, Pool.page, h.retains.cache_eq, h.frames_eq, h.locks_eq, h.stored?_eq]
  split
  · next hsame => rw [hsame]
  · rfl

namespace Rewrites

theorem refl (hsound : pool.Sound) (hpeek : pool.cache.peek? id = some ref) :
    pool.Rewrites pool id ref (pool.page ref) (pool.stored? id) where
  sound := hsound
  retains := .refl pool
  locks_eq := rfl
  page_eq other := by
    split
    · next hsame => rw [hsame]
    · rfl
  standing_eq other := by
    split
    · next hsame =>
      rw [hsame, ← standing_cached hpeek]
      rfl
    · rfl

theorem peek? (h : before.Rewrites after id ref page stored) :
    after.cache.peek? id = some ref := by
  have hcached : (after.standing id).cached = some (ref, page) := by
    rw [h.standing_eq, if_pos rfl]
  exact (standing_cached_iff.1 hcached).1

theorem page_self (h : before.Rewrites after id ref page stored) : after.page ref = page := by
  rw [h.page_eq, if_pos rfl]

theorem stored?_self (h : before.Rewrites after id ref page stored) : after.stored? id = stored := by
  have hstanding := congrArg Standing.stored (h.standing_eq id)
  rwa [if_pos rfl] at hstanding

/-- The object changes once more. -/
theorem setPage (h : before.Rewrites middle id ref page stored) (last : Page) (hid : last.id = id) :
    before.Rewrites (middle.setPage ref last) id ref last stored where
  sound := h.sound.setPage h.peek? hid
  retains := h.retains.trans (.setPage middle ref last)
  locks_eq := h.locks_eq
  page_eq other := by
    rw [page_setPage]
    by_cases hsame : other = ref
    · rw [if_pos ⟨hsame, h.sound.inside h.peek?⟩, if_pos hsame]
    · rw [if_neg fun hboth => hsame hboth.1, if_neg hsame, h.page_eq, if_neg hsame]
  standing_eq other := by
    rw [standing_setPage h.sound h.peek?, h.standing_eq, h.standing_eq]
    split <;> simp

/-- The page goes to storage. -/
theorem store (h : before.Rewrites middle id ref page stored)
    (hdeposits : middle.Deposits id data after) :
    before.Rewrites after id ref page (some data) where
  sound := hdeposits.sound
  retains := h.retains.trans hdeposits.retains
  locks_eq := hdeposits.locks_eq.trans h.locks_eq
  page_eq other := by
    rw [Pool.page, hdeposits.frames_eq]
    exact h.page_eq other
  standing_eq other := by
    rw [hdeposits.standing_eq, h.standing_eq, h.standing_eq]
    split <;> simp

end Rewrites

/-- A page that storage has can be written. -/
theorem Sound.ends_storePage (hsound : pool.Sound) (hstored : (pool.stored? id).isSome)
    (hid : page.id = id) (hlength : page.data.length = pool.pageSize) :
    Ends (storePage id page) pool (fun _ after => pool.Deposits id page.data after)
      fun _ _ => False := by
  subst hid
  obtain ⟨old, hold⟩ := Option.isSome_iff_exists.1 hstored
  obtain ⟨table, htable, hold⟩ := Option.bind_eq_some_iff.1 hold
  have hreliable := hsound.reliable htable
  unfold storePage
  refine (ends_getTable_of_eq htable).bind ?_ fun _ _ => False.elim
  rintro _ _ ⟨rfl, rfl⟩
  rw [ends_writeStored_iff]
  refine ((Volume.ends_writePage hreliable page hold hlength).and
    (Volume.ends_writeAt_outline hreliable hold hlength)).mono ?_ fun _ _ h => h.1
  rintro _ volume ⟨⟨hvolume, hdata⟩, houtline⟩
  exact ⟨hsound.setVolume htable hvolume, .setVolume hsound htable houtline, rfl, rfl,
    stored?_setVolume_page hsound htable hdata⟩

/-- An object that its page can be written with goes to storage, and is changed after that. -/
theorem Rewrites.ends_storePage (h : before.Rewrites middle id ref page stored)
    (hstored : stored.isSome) (hid : page.id = id) (hlength : page.data.length = before.pageSize)
    (change : Page → Page) (hchange : (change page).id = id) :
    Ends (storePage id page) middle
      (fun _ after => before.Rewrites (after.setPage ref (change (after.page ref))) id ref
        (change page) (some page.data))
      fun _ _ => False := by
  refine (h.sound.ends_storePage (h.stored?_self ▸ hstored) hid
    (hlength.trans h.retains.pageSize_eq.symm)).mono ?_ fun _ _ => False.elim
  intro _ after hdeposits
  have hwritten := h.store hdeposits
  rw [hwritten.page_self]
  exact hwritten.setPage _ hchange

end Pool

end PagePool
