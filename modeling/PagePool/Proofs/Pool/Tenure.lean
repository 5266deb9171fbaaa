import PagePool.Proofs.Pool.Operation

/-!
# What is left to a writer

A page that a transaction has locked for writing stays in the cache with its object, whatever the
others do. How much more is known of the pages in the cache depends on how far everybody keeps to
the rules.

Nothing on a clean page tells that somebody is about to write it. Only the lock on it does, which
the pool asks for before it drives a page out. So what a step must leave alone is told by the owners:
`Drifts` says that whoever owned a page owns it still, and that it is still there with its object.
It composes, and whatever the pool does is such a step.
-/

namespace PagePool

open LockRecord Pool

/-- How far the users of a pool keep to its rules. -/
inductive Regime where
  /-- Anything goes. -/
  | free
  /-- A transaction does one thing at a time, and leaves it to the pool to mark pages and to drop
  them. -/
  | orderly
  /-- Pages are written by their owners and given back unmodified, and storage does not fail. -/
  | strict
  deriving DecidableEq

/-- What holds of a page in the cache, over the locks on it. -/
structure Page.Kept (regime : Regime) (size : Nat) (records : List LockRecord) (page : Page) :
    Prop where
  image_of_dirty : regime ≠ .free → page.dirty.isSome → page.beforeImage.isSome
  image_of_stolen : regime = .strict → page.stolen = true → page.beforeImage.isSome
  owned_of_dirty : regime = .strict → ∀ tx, page.dirty = some tx → OwnedBy records tx
  owned_of_image : regime = .strict → page.beforeImage.isSome → ∃ tx, OwnedBy records tx
  length_data : regime = .strict → page.data.length = size
  length_image : regime = .strict → ∀ image, page.beforeImage = some image → image.length = size

namespace Page

variable {regime : Regime} {size : Nat} {records records' : List LockRecord} {page after : Page}
  {tx : TxId}

theorem Kept.mono (h : page.Kept regime size records)
    (howned : ∀ tx, OwnedBy records tx → OwnedBy records' tx) :
    page.Kept regime size records' where
  image_of_dirty := h.image_of_dirty
  image_of_stolen := h.image_of_stolen
  owned_of_dirty hstrict tx hdirty := howned tx (h.owned_of_dirty hstrict tx hdirty)
  owned_of_image hstrict himage := (h.owned_of_image hstrict himage).imp howned
  length_data := h.length_data
  length_image := h.length_image

/-- A page that nobody owns is as it came from storage. -/
theorem Kept.clean (h : page.Kept .strict size records) (hfree : ∀ owner, ¬OwnedBy records owner) :
    page.beforeImage = none ∧ page.dirty = none ∧ page.stolen = false := by
  have himage : page.beforeImage = none := by
    cases hsome : page.beforeImage with
    | none => rfl
    | some image =>
        obtain ⟨owner, howner⟩ := h.owned_of_image rfl (hsome ▸ rfl)
        exact absurd howner (hfree owner)
  refine ⟨himage, ?_, ?_⟩
  · apply Option.not_isSome_iff_eq_none.1
    intro hdirty
    have := h.image_of_dirty nofun hdirty
    rw [himage] at this
    cases this
  · apply Bool.eq_false_iff.2
    intro hstolen
    have := h.image_of_stolen rfl hstolen
    rw [himage] at this
    cases this

theorem kept_free (size : Nat) (records : List LockRecord) (page : Page) :
    page.Kept .free size records :=
  ⟨fun hkeeps => absurd rfl hkeeps, nofun, nofun, nofun, nofun, nofun⟩

theorem kept_load {data : Bytes} (id : PageId) (hlength : data.length = size) :
    (load id data).Kept regime size records where
  image_of_dirty _ := nofun
  image_of_stolen _ := nofun
  owned_of_dirty _ _ := nofun
  owned_of_image _ := nofun
  length_data _ := hlength
  length_image _ _ := nofun

/-- A transaction leaves a page, and has written nothing on it that it could take back. -/
theorem Kept.unlock (h : page.Kept regime size records)
    (hclean : regime = .strict → OwnedBy records tx → page.beforeImage = none) :
    page.Kept regime size (records.filter (·.tx ≠ tx)) := by
  have hleft : regime = .strict → page.beforeImage.isSome → ∀ {owner}, OwnedBy records owner →
      OwnedBy (records.filter (·.tx ≠ tx)) owner := by
    intro hstrict himage owner howner
    refine ownedBy_filter_ne.2 ⟨howner, fun hsame => ?_⟩
    rw [hclean hstrict (hsame ▸ howner)] at himage
    cases himage
  refine ⟨h.image_of_dirty, h.image_of_stolen, fun hstrict owner hdirty => ?_,
    fun hstrict himage => ?_, h.length_data, h.length_image⟩
  · have himage := h.image_of_dirty (by simp [hstrict]) (hdirty ▸ rfl)
    exact hleft hstrict himage (h.owned_of_dirty hstrict owner hdirty)
  · exact (h.owned_of_image hstrict himage).imp fun _ howner => hleft hstrict himage howner

theorem Kept.rewritten (h : page.Kept regime size records) (hpage : page.Rewritten tx after)
    (howner : regime = .strict → OwnedBy records tx) : after.Kept regime size records := by
  obtain ⟨data, hlength, rfl⟩ := hpage
  refine ⟨fun _ _ => rfl, fun _ _ => rfl, fun hstrict other hdirty => ?_,
    fun hstrict _ => ⟨tx, howner hstrict⟩, fun hstrict => ?_, fun hstrict image himage => ?_⟩
  · rw [← Option.some.inj hdirty]
    exact howner hstrict
  · exact hlength.trans (h.length_data hstrict)
  · have himage : page.beforeImage.getD page.data = image := Option.some.inj himage
    cases hold : page.beforeImage with
    | none =>
        rw [hold] at himage
        rw [← himage]
        exact h.length_data hstrict
    | some old =>
        rw [hold] at himage
        rw [← himage]
        exact h.length_image hstrict old hold

theorem Kept.mark (h : page.Kept regime size records) (howner : OwnedBy records tx)
    (himage : regime ≠ .free → page.beforeImage.isSome) :
    (page.mark tx true).Kept regime size records where
  image_of_dirty hkeeps _ := himage hkeeps
  image_of_stolen := h.image_of_stolen
  owned_of_dirty _ other hdirty := by
    rw [← Option.some.inj hdirty]
    exact howner
  owned_of_image := h.owned_of_image
  length_data := h.length_data
  length_image := h.length_image

theorem Kept.flushed (h : page.Kept regime size records) :
    page.flushed.Kept regime size records where
  image_of_dirty _ := nofun
  image_of_stolen hstrict hstolen := by
    rcases Bool.or_eq_true_iff.1 hstolen with hold | hnew
    · exact h.image_of_stolen hstrict hold
    · exact hnew
  owned_of_dirty _ _ := nofun
  owned_of_image := h.owned_of_image
  length_data := h.length_data
  length_image := h.length_image

theorem Kept.clearBeforeImage (h : page.Kept regime size records) (hclean : page.dirty = none) :
    page.clearBeforeImage.Kept regime size records where
  image_of_dirty _ hdirty := by
    change page.dirty.isSome = true at hdirty
    rw [hclean] at hdirty
    cases hdirty
  image_of_stolen _ := nofun
  owned_of_dirty hstrict tx hdirty := h.owned_of_dirty hstrict tx hdirty
  owned_of_image _ := nofun
  length_data := h.length_data
  length_image _ _ := nofun

/-- A page that is taken back to its image. Until its bytes are in storage again it may be stolen
without an image. -/
theorem kept_restored (hrestored : page.restored? = some after) (hloose : regime ≠ .strict) :
    after.Kept regime size records := by
  obtain ⟨image, _, rfl⟩ := Option.map_eq_some_iff.1 hrestored
  exact ⟨fun _ => nofun, fun hstrict => absurd hstrict hloose, fun _ _ => nofun, fun _ => nofun,
    fun hstrict => absurd hstrict hloose, fun _ _ => nofun⟩

theorem Kept.settled (h : page.Kept regime size records) (hrestored : page.restored? = some after) :
    after.clearBeforeImage.Kept regime size records := by
  obtain ⟨image, himage, rfl⟩ := Option.map_eq_some_iff.1 hrestored
  exact ⟨fun _ => nofun, fun _ => nofun, fun _ _ => nofun, fun _ => nofun,
    fun hstrict => h.length_image hstrict image himage, fun _ _ => nofun⟩

end Page

namespace Pool

/-- A table that can be used under the rules that count: its storage does not fail, and its
insertions write under exclusive locks. -/
structure Serves (pool : Pool) (table : Table) : Prop where
  backed : table.volume < pool.volumes.length
  reliable : (pool.volume table.volume).Reliable pool.pageSize
  guarded : table.kind ≠ .stamps .shared

/-- The cache lists every page once, under its own name, and the locks of a page stand together. -/
structure Tidy (regime : Regime) (pool : Pool) : Prop where
  nodup : pool.cache.pages.Nodup
  inside : ∀ {id ref}, pool.cache.peek? id = some ref → ref < pool.frames.next
  named : ∀ {id ref}, pool.cache.peek? id = some ref → (pool.page ref).id = id
  compatible : ∀ id, Compatible id (pool.locks.table.records id)
  kept : ∀ {id ref}, pool.cache.peek? id = some ref →
    (pool.page ref).Kept regime pool.pageSize (pool.locks.table.records id)
  backed : regime = .strict → ∀ table ∈ pool.tables, table.volume < pool.volumes.length
  reliable : regime = .strict → ∀ table ∈ pool.tables,
    (pool.volume table.volume).Reliable pool.pageSize
  guarded : regime = .strict → pool.Strict
  stored : regime = .strict → ∀ {id ref}, pool.cache.peek? id = some ref →
    (pool.stored? id).isSome

/-- What a step of a transaction leaves as it is: the names of the page objects, and the pages of
those who own them. The transaction itself may lose what it drops, and nobody else gains a page. -/
structure Drifts (regime : Regime) (tx : TxId) (drops : PageId → Prop) (before after : Pool) :
    Prop where
  tidy : after.Tidy regime
  table?_some : ∀ {number table}, before.table? number = some table →
    after.table? number = some table
  pageSize_eq : after.pageSize = before.pageSize
  next_le : before.frames.next ≤ after.frames.next
  id_eq : ∀ ref, ref < before.frames.next → (after.page ref).id = (before.page ref).id
  isSome_stored : regime = .strict → ∀ {id}, (before.stored? id).isSome → (after.stored? id).isSome
  owned : regime ≠ .free → ∀ {owner id}, ¬(owner = tx ∧ drops id) →
    OwnedBy (before.locks.table.records id) owner → OwnedBy (after.locks.table.records id) owner
  unowned : ∀ {owner id}, owner ≠ tx → OwnedBy (after.locks.table.records id) owner →
    OwnedBy (before.locks.table.records id) owner
  resident : regime ≠ .free → ∀ {owner id ref}, ¬(owner = tx ∧ drops id) →
    OwnedBy (before.locks.table.records id) owner → before.cache.peek? id = some ref →
      after.cache.peek? id = some ref ∧
        ((before.page ref).beforeImage.isSome → (after.page ref).beforeImage.isSome)

variable {regime : Regime} {drops : PageId → Prop} {pool before middle after : Pool}
  {tx : TxId} {id other : PageId} {ref : PageRef} {page : Page}

theorem Tidy.ref_inj (h : pool.Tidy regime) (hid : pool.cache.peek? id = some ref)
    (hother : pool.cache.peek? other = some ref) : id = other :=
  (h.named hid).symm.trans (h.named hother)

theorem Tidy.reliable_of_eq (h : pool.Tidy .strict) {table : Table} {number : UInt32}
    (htable : pool.table? number = some table) :
    (pool.volume table.volume).Reliable pool.pageSize :=
  h.reliable rfl table (List.mem_of_find?_eq_some htable)

namespace Drifts

theorem refl (h : pool.Tidy regime) : Drifts regime tx drops pool pool where
  tidy := h
  table?_some htable := htable
  pageSize_eq := rfl
  next_le := Nat.le_refl _
  id_eq _ _ := rfl
  isSome_stored _ _ hstored := hstored
  owned _ _ _ _ howner := howner
  unowned _ howner := howner
  resident _ _ _ _ _ _ hpeek := ⟨hpeek, fun himage => himage⟩

theorem trans (h : Drifts regime tx drops before middle)
    (h' : Drifts regime tx drops middle after) :
    Drifts regime tx drops before after where
  tidy := h'.tidy
  table?_some htable := h'.table?_some (h.table?_some htable)
  pageSize_eq := h'.pageSize_eq.trans h.pageSize_eq
  next_le := Nat.le_trans h.next_le h'.next_le
  id_eq ref hin :=
    (h'.id_eq ref (Nat.lt_of_lt_of_le hin h.next_le)).trans (h.id_eq ref hin)
  isSome_stored hstrict _ hstored := h'.isSome_stored hstrict (h.isSome_stored hstrict hstored)
  owned hkeeps _ _ hkept howner := h'.owned hkeeps hkept (h.owned hkeeps hkept howner)
  unowned hother howner := h.unowned hother (h'.unowned hother howner)
  resident hkeeps _ _ _ hkept howner hpeek := by
    obtain ⟨hmiddle, himage⟩ := h.resident hkeeps hkept howner hpeek
    obtain ⟨hafter, himage'⟩ := h'.resident hkeeps hkept (h.owned hkeeps hkept howner) hmiddle
    exact ⟨hafter, fun hsome => himage' (himage hsome)⟩

end Drifts

theorem setPage_setPage (pool : Pool) (ref : PageRef) (first page : Page) :
    (pool.setPage ref first).setPage ref page = pool.setPage ref page := by
  have hlatch : ((pool.setPage ref first).frames.frame ref).latch =
      (pool.frames.frame ref).latch := by
    change ((pool.frames.setFrame ref _).frame ref).latch = _
    rw [Frames.frame_setFrame]
    split <;> rfl
  unfold Pool.setPage at hlatch ⊢
  simp only [Frames.setPage, Frames.setFrame, List.set_set] at hlatch ⊢
  congr 3
  simp only [hlatch]

theorem volume_set (pool : Pool) (target other : VolumeRef) (volume : Volume) :
    (pool.setVolume target volume).volume other =
      if target = other ∧ other < pool.volumes.length then volume else pool.volume other := by
  simp only [Pool.volume, Pool.setVolume, List.getD_eq_getElem?_getD, List.getElem?_set]
  by_cases hsame : target = other
  · by_cases hin : other < pool.volumes.length <;> simp [hsame, hin]
  · simp [hsame]

section Updates

variable (h : pool.Tidy regime)
include h

theorem Drifts.samePages {cache : Cache} (hnodup : cache.pages.Nodup)
    (hsame : pool.cache.SamePages cache) : Drifts regime tx drops pool { pool with cache } where
  __ := Drifts.refl h
  tidy := by
    refine { h with nodup := hnodup, inside := ?_, named := ?_, kept := ?_, stored := ?_ }
    · intro id ref hpeek
      exact h.inside (hsame id ▸ hpeek)
    · intro id ref hpeek
      exact h.named (hsame id ▸ hpeek)
    · intro id ref hpeek
      exact h.kept (hsame id ▸ hpeek)
    · intro hstrict id ref hpeek
      exact h.stored hstrict (hsame id ▸ hpeek)
  resident _ _ id _ _ _ hpeek := ⟨(hsame id).trans hpeek, fun himage => himage⟩

theorem Drifts.locks (locks : LockManager)
    (hcompatible : ∀ id, Compatible id (locks.table.records id))
    (howned : regime ≠ .free → ∀ {owner id}, ¬(owner = tx ∧ drops id) →
      OwnedBy (pool.locks.table.records id) owner → OwnedBy (locks.table.records id) owner)
    (hunowned : ∀ {owner id}, owner ≠ tx → OwnedBy (locks.table.records id) owner →
      OwnedBy (pool.locks.table.records id) owner)
    (hkept : ∀ {id ref}, pool.cache.peek? id = some ref →
      (pool.page ref).Kept regime pool.pageSize (locks.table.records id)) :
    Drifts regime tx drops pool { pool with locks } where
  __ := Drifts.refl h
  tidy := { h with compatible := hcompatible, kept := hkept }
  owned := howned
  unowned := hunowned

theorem Drifts.locks_of_table (locks : LockManager) (htable : locks.table = pool.locks.table) :
    Drifts regime tx drops pool { pool with locks } := by
  apply Drifts.locks h locks
  · rw [htable]
    exact h.compatible
  · rw [htable]
    exact fun _ _ _ _ howner => howner
  · rw [htable]
    exact fun _ howner => howner
  · rw [htable]
    exact h.kept

theorem Drifts.grant {request : Request} {locks : LockManager}
    (hfree : pool.locks.table.blockers request = [])
    (htable : locks.table = pool.locks.table.grant request) :
    Drifts regime request.tx drops pool { pool with locks } := by
  have howned : ∀ {owner id}, OwnedBy (pool.locks.table.records id) owner →
      OwnedBy (locks.table.records id) owner := by
    intro owner id howner
    rw [htable]
    by_cases hpage : id = request.page
    · rw [hpage] at howner ⊢
      exact (LockTable.ownedBy_grant hfree owner).2 (.inl howner)
    · rwa [LockTable.records_grant_of_ne hpage]
  apply Drifts.locks h locks
  · rw [htable]
    exact LockTable.Sound.grant h.compatible hfree
  · exact fun _ _ _ _ howner => howned howner
  · intro owner id hother howner
    rw [htable] at howner
    by_cases hpage : id = request.page
    · rw [hpage] at howner ⊢
      exact ((LockTable.ownedBy_grant hfree owner).1 howner).resolve_right
        fun hsame => hother hsame.1
    · rwa [LockTable.records_grant_of_ne hpage] at howner
  · exact fun hpeek => (h.kept hpeek).mono fun _ howner => howned howner

/-- A transaction leaves some pages: it owns none of them, or drops it unwritten. -/
theorem Drifts.unlock {owner : TxId} {locks : LockManager}
    (hrecords : ∀ id, locks.table.records id = pool.locks.table.records id ∨
      locks.table.records id = (pool.locks.table.records id).filter (·.tx ≠ owner) ∧
        (regime ≠ .free → OwnedBy (pool.locks.table.records id) owner → owner = tx ∧ drops id) ∧
        (regime = .strict → OwnedBy (pool.locks.table.records id) owner →
          ∀ ref, pool.cache.peek? id = some ref → (pool.page ref).beforeImage = none)) :
    Drifts regime tx drops pool { pool with locks } := by
  refine .locks h locks (fun id => ?_) (fun hkeeps holder id hkept howner => ?_)
    (fun {holder id} _ howner => ?_) (fun {id ref} hpeek => ?_)
  all_goals rcases hrecords id with hsame | ⟨hleft, hdrops, hclean⟩
  · rw [hsame]
    exact h.compatible id
  · rw [hleft]
    exact (h.compatible id).filter _
  · rwa [hsame]
  · rw [hleft]
    refine ownedBy_filter_ne.2 ⟨howner, fun hsame => ?_⟩
    obtain ⟨htx, hgone⟩ := hdrops hkeeps (hsame ▸ howner)
    exact hkept ⟨hsame.trans htx, hgone⟩
  · rwa [hsame] at howner
  · rw [hleft] at howner
    exact (ownedBy_filter_ne.1 howner).1
  · rw [hsame]
    exact h.kept hpeek
  · rw [hleft]
    exact (h.kept hpeek).unlock fun hstrict howner => hclean hstrict howner ref hpeek

theorem Drifts.setPage (hid : page.id = (pool.page ref).id)
    (hkept : pool.cache.peek? page.id = some ref →
      page.Kept regime pool.pageSize (pool.locks.table.records page.id))
    (himage : ∀ owner, ¬(owner = tx ∧ drops page.id) →
      OwnedBy (pool.locks.table.records page.id) owner → (pool.page ref).beforeImage.isSome →
        page.beforeImage.isSome) :
    Drifts regime tx drops pool (pool.setPage ref page) := by
  have hsame : ∀ object, ((pool.setPage ref page).page object).id = (pool.page object).id := by
    intro object
    rw [page_setPage]
    split
    · next hset => rw [hset.1, hid]
    · rfl
  refine { Drifts.refl h with
    tidy := { h with inside := ?_, named := ?_, kept := ?_ }
    next_le := Nat.le_of_eq (next_setPage pool ref page).symm
    id_eq := fun object _ => hsame object
    resident := ?_ }
  · intro id object hpeek
    rw [next_setPage]
    exact h.inside hpeek
  · intro id object hpeek
    rw [hsame]
    exact h.named hpeek
  · intro id object hpeek
    rw [page_setPage]
    split
    · next hset =>
      rw [hset.1] at hpeek
      have hname : page.id = id := hid.trans (h.named hpeek)
      have hkept' := hkept (hname ▸ hpeek)
      rwa [hname] at hkept'
    · exact h.kept hpeek
  · intro _ owner id object hkeeps howner hpeek
    refine ⟨hpeek, fun hsome => ?_⟩
    rw [page_setPage]
    split
    · next hset =>
      rw [hset.1] at hpeek hsome
      have hname : page.id = id := hid.trans (h.named hpeek)
      exact himage owner (hname ▸ hkeeps) (hname ▸ howner) hsome
    · exact hsome

/-- Storage may change from outside; where rules count, it keeps its pages. -/
theorem Drifts.volumes {volumes : List Volume}
    (hlength : regime = .strict → pool.volumes.length ≤ volumes.length)
    (hlasts : regime = .strict → ∀ ref,
      (pool.volume ref).Lasts pool.pageSize (volumes.getD ref default)) :
    Drifts regime tx drops pool { pool with volumes } := by
  have hstored : regime = .strict → ∀ {id}, (pool.stored? id).isSome →
      (Pool.stored? { pool with volumes } id).isSome := by
    intro hstrict id hsome
    have htable : Pool.table? { pool with volumes } id.table = pool.table? id.table := rfl
    unfold stored? at hsome ⊢
    rw [htable]
    cases hfound : pool.table? id.table with
    | none =>
        rw [hfound] at hsome
        cases hsome
    | some table =>
        rw [hfound] at hsome
        exact (hlasts hstrict table.volume).isSome_stored hsome
  refine { Drifts.refl h with
    tidy := { h with backed := ?_, reliable := ?_, stored := ?_ }
    isSome_stored := hstored }
  · intro hstrict table hmem
    exact Nat.lt_of_lt_of_le (h.backed hstrict table hmem) (hlength hstrict)
  · intro hstrict table hmem
    exact (hlasts hstrict table.volume).reliable (h.reliable hstrict table hmem)
  · intro hstrict id ref hpeek
    exact hstored hstrict (h.stored hstrict hpeek)

theorem Drifts.setVolume {target : VolumeRef} {volume : Volume}
    (hlasts : regime = .strict → (pool.volume target).Lasts pool.pageSize volume) :
    Drifts regime tx drops pool (pool.setVolume target volume) := by
  refine .volumes h (fun _ => Nat.le_of_eq (List.length_set ..).symm) fun hstrict other => ?_
  change (pool.volume other).Lasts pool.pageSize ((pool.setVolume target volume).volume other)
  rw [volume_set]
  split
  · next hsame => exact hsame.1 ▸ hlasts hstrict
  · exact .refl _

/-- A table that is registered behind the others hides none of them. -/
theorem Drifts.register {table : Table} (hserves : regime = .strict → pool.Serves table) :
    Drifts regime tx drops pool { pool with tables := pool.tables ++ [table] } := by
  have hfound : ∀ {number other}, pool.table? number = some other →
      Pool.table? { pool with tables := pool.tables ++ [table] } number = some other := by
    intro number other hother
    unfold table? at hother ⊢
    rw [List.find?_append, hother, Option.some_or]
  have hstored : ∀ {id}, (pool.stored? id).isSome →
      (Pool.stored? { pool with tables := pool.tables ++ [table] } id).isSome := by
    intro id hsome
    unfold stored? at hsome ⊢
    cases hother : pool.table? id.table with
    | none =>
        rw [hother] at hsome
        cases hsome
    | some other =>
        rw [hother] at hsome
        rw [hfound hother]
        exact hsome
  have hall : ∀ {motive : Table → Prop}, (∀ other ∈ pool.tables, motive other) → motive table →
      ∀ other ∈ pool.tables ++ [table], motive other := by
    intro motive hold hnew other hmem
    rcases List.mem_append.1 hmem with hmem | hmem
    · exact hold other hmem
    · exact List.mem_singleton.1 hmem ▸ hnew
  refine { Drifts.refl h with
    tidy := { h with backed := ?_, reliable := ?_, guarded := ?_, stored := ?_ }
    table?_some := hfound
    isSome_stored := fun _ _ => hstored }
  · exact fun hstrict => hall (h.backed hstrict) (hserves hstrict).backed
  · exact fun hstrict => hall (h.reliable hstrict) (hserves hstrict).reliable
  · exact fun hstrict => hall (h.guarded hstrict) (hserves hstrict).guarded
  · exact fun hstrict _ _ hpeek => hstored (h.stored hstrict hpeek)

/-- Who is using a page object is none of the pool's business. -/
theorem Drifts.setLatch (ref : PageRef) (latch : Latch) :
    Drifts regime tx drops pool (pool.setLatch ref latch) := by
  have hpage : ∀ other, (pool.setLatch ref latch).page other = pool.page other :=
    fun other => pool.frames.page_setLatch ref other latch
  have hnext : (pool.setLatch ref latch).frames.next = pool.frames.next := List.length_set ..
  refine { Drifts.refl h with
    tidy := { h with
      inside := fun hpeek => hnext ▸ h.inside hpeek
      named := fun hpeek => ?_
      kept := fun hpeek => ?_ }
    next_le := Nat.le_of_eq hnext.symm
    id_eq := fun other _ => congrArg Page.id (hpage other)
    resident := fun _ _ _ object _ _ hpeek => ?_ }
  · rw [hpage]
    exact h.named hpeek
  · rw [hpage]
    exact h.kept hpeek
  · refine ⟨hpeek, fun himage => ?_⟩
    rw [hpage]
    exact himage

/-- A page comes in that was not there. -/
theorem Drifts.load {data : Bytes} (habsent : pool.cache.peek? id = none)
    (hlength : data.length = pool.pageSize)
    (hstored : regime = .strict → (pool.stored? id).isSome) :
    Drifts regime tx drops pool
      { pool with
        cache := pool.cache.promote id pool.frames.next
        frames := pool.frames.alloc (Page.load id data) } := by
  have hpage : ∀ ref, (pool.frames.alloc (Page.load id data)).page ref =
      if ref = pool.frames.next then Page.load id data else pool.page ref := fun ref =>
    Frames.page_alloc pool.frames _ ref
  have hnext : (pool.frames.alloc (Page.load id data)).next = pool.frames.next + 1 :=
    List.length_append
  -- a page of the new cache is the one that came in, or it was there and has its old object
  have hcases : ∀ {other ref}, (pool.cache.promote id pool.frames.next).peek? other = some ref →
      (other = id ∧ ref = pool.frames.next) ∨
        (pool.cache.peek? other = some ref ∧ ref < pool.frames.next) := by
    intro other ref hpeek
    rw [Cache.peek?_promote] at hpeek
    split at hpeek
    · next hsame => exact .inl ⟨hsame, (Option.some.inj hpeek).symm⟩
    · exact .inr ⟨hpeek, h.inside hpeek⟩
  refine { Drifts.refl h with
    tidy := { h with
      nodup := Cache.nodup_promote h.nodup _ _
      inside := ?_
      named := ?_
      kept := ?_
      stored := ?_ }
    next_le := Nat.le.intro hnext.symm
    id_eq := ?_
    resident := ?_ }
  · intro other ref hpeek
    change ref < (pool.frames.alloc (Page.load id data)).next
    rw [hnext]
    rcases hcases hpeek with ⟨_, rfl⟩ | ⟨_, hin⟩
    · exact Nat.lt_succ_self _
    · exact Nat.lt_succ_of_lt hin
  · intro other ref hpeek
    change ((pool.frames.alloc (Page.load id data)).page ref).id = other
    rw [hpage]
    rcases hcases hpeek with ⟨rfl, rfl⟩ | ⟨hold, hin⟩
    · rw [if_pos rfl]
      rfl
    · rw [if_neg (Nat.ne_of_lt hin)]
      exact h.named hold
  · intro other ref hpeek
    change ((pool.frames.alloc (Page.load id data)).page ref).Kept regime pool.pageSize _
    rw [hpage]
    rcases hcases hpeek with ⟨rfl, rfl⟩ | ⟨hold, hin⟩
    · rw [if_pos rfl]
      exact Page.kept_load other hlength
    · rw [if_neg (Nat.ne_of_lt hin)]
      exact h.kept hold
  · intro hstrict other ref hpeek
    rcases hcases hpeek with ⟨rfl, _⟩ | ⟨hold, _⟩
    · exact hstored hstrict
    · exact h.stored hstrict hold
  · intro ref hin
    change ((pool.frames.alloc (Page.load id data)).page ref).id = _
    rw [hpage, if_neg (Nat.ne_of_lt hin)]
  · intro _ owner other ref _ _ hpeek
    have hne : other ≠ id := fun hsame => by
      rw [hsame, habsent] at hpeek
      cases hpeek
    refine ⟨?_, fun himage => ?_⟩
    · change (pool.cache.promote id pool.frames.next).peek? other = some ref
      rwa [Cache.peek?_promote, if_neg hne]
    · change ((pool.frames.alloc (Page.load id data)).page ref).beforeImage.isSome = true
      rwa [hpage, if_neg (Nat.ne_of_lt (h.inside hpeek))]

/-- A page leaves that nobody else owns. -/
theorem Drifts.remove (hdrops : regime ≠ .free → ∀ owner,
    OwnedBy (pool.locks.table.records id) owner → owner = tx ∧ drops id) :
    Drifts regime tx drops pool { pool with cache := pool.cache.remove id } := by
  have hcases : ∀ {other ref}, (pool.cache.remove id).peek? other = some ref →
      pool.cache.peek? other = some ref := by
    intro other ref hpeek
    rw [Cache.peek?_remove] at hpeek
    exact (Option.ite_none_left_eq_some.1 hpeek).2
  refine { Drifts.refl h with
    tidy := { h with
      nodup := Cache.nodup_remove h.nodup _
      inside := fun hpeek => h.inside (hcases hpeek)
      named := fun hpeek => h.named (hcases hpeek)
      kept := fun hpeek => h.kept (hcases hpeek)
      stored := fun hstrict _ _ hpeek => h.stored hstrict (hcases hpeek) }
    resident := ?_ }
  intro hkeeps owner other ref hkept howner hpeek
  have hne : other ≠ id := fun hsame => hkept (hsame ▸ hdrops hkeeps owner (hsame ▸ howner))
  refine ⟨?_, fun himage => himage⟩
  change (pool.cache.remove id).peek? other = some ref
  rwa [Cache.peek?_remove, if_neg hne]

end Updates

/-- A page as it was read from storage. -/
def Reads (regime : Regime) (pool : Pool) (id : PageId) (page : Page) : Prop :=
  (regime = .strict → (pool.stored? id).isSome) ∧
    ∃ data, data.length = pool.pageSize ∧ page = Page.load id data

theorem Reads.drifts (hreads : before.Reads regime id page)
    (h : Drifts regime tx drops before after) :
    after.Reads regime id page := by
  obtain ⟨hstored, data, hlength, hpage⟩ := hreads
  exact ⟨fun hstrict => h.isSome_stored hstrict (hstored hstrict), data,
    hlength.trans h.pageSize_eq.symm, hpage⟩

/-- What a fetch gives: the object in the cache, or a new one with the stored bytes. -/
def Offers (regime : Regime) (pool : Pool) (id : PageId) : Fetched → Prop
  | .resident ref => pool.cache.peek? id = some ref
  | .loaded page => pool.cache.peek? id = none ∧ pool.Reads regime id page

namespace Tidy

variable (h : pool.Tidy regime)
include h

theorem ends_readStored (tx : TxId) (drops : PageId → Prop) {table : Table}
    (htable : pool.table? id.table = some table) :
    Ends (readStored table id) pool
      (fun page after => Drifts regime tx drops pool after ∧ after.locks = pool.locks ∧
        after.cache = pool.cache ∧ pool.Reads regime id page)
      (fun _ after => Drifts regime tx drops pool after) := by
  rw [ends_readStored_iff]
  apply (Volume.ends_readPage_lasts _ pool.pageSize table.id id).mono
  · intro page volume hread
    obtain ⟨hlasts, _, data, hdata, hlength, hpage⟩ := hread
    refine ⟨.setVolume h fun _ => hlasts, rfl, rfl, fun _ => ?_, data, hlength, hpage⟩
    rw [stored?, htable, Option.bind_some, hdata]
    rfl
  · exact fun _ _ hread => .setVolume h fun _ => hread.1

/-- A page that is there comes to the front. -/
theorem drifts_promoted (tx : TxId) (drops : PageId → Prop)
    (hpeek : pool.cache.peek? id = some ref) :
    Drifts regime tx drops pool { pool with cache := pool.cache.promote id ref } :=
  .samePages h (Cache.nodup_promote h.nodup _ _) (Cache.samePages_promote hpeek)

theorem ends_fetch (tx : TxId) (drops : PageId → Prop) (id : PageId) :
    Ends (fetch id) pool
      (fun fetched after => Drifts regime tx drops pool after ∧ after.locks = pool.locks ∧
        after.Offers regime id fetched)
      (fun _ after => Drifts regime tx drops pool after) := by
  refine ends_fetch_iff.2 ⟨fun ref hpeek => ?_, fun habsent => ?_⟩
  · exact ⟨h.drifts_promoted tx drops hpeek, rfl, (Cache.samePages_promote hpeek id).trans hpeek⟩
  · apply (ends_getTable id.table pool).mono _ fun _ after hafter => by
      rw [hafter]
      exact .refl h
    intro table middle hmiddle
    obtain ⟨rfl, htable⟩ := hmiddle
    refine (h.ends_readStored tx drops htable).mono ?_ fun _ _ hafter => hafter
    intro page after hread
    obtain ⟨hafter, hlocks, hcache, hpage⟩ := hread
    exact ⟨hafter, hlocks, by rw [hcache, habsent], hpage.drifts hafter⟩

/-- A page that has been read comes into the cache, unless it is there already. -/
theorem ends_install (tx : TxId) (drops : PageId → Prop) (hpage : pool.Reads regime id page) :
    Ends (install page) pool
      (fun ref after => Drifts regime tx drops pool after ∧ after.locks = pool.locks ∧
        after.cache.peek? id = some ref)
      (fun _ after => Drifts regime tx drops pool after) := by
  obtain ⟨hstored, data, hlength, rfl⟩ := hpage
  refine ends_install_iff.2 ⟨fun ref hpeek => ?_, fun habsent => ends_cachePage_iff.2 ⟨?_, ?_⟩⟩
  · exact ⟨h.drifts_promoted tx drops hpeek, rfl, (Cache.samePages_promote hpeek id).trans hpeek⟩
  · intro evicted cache hput
    have hresident : ∀ cache : Cache,
        (cache.promote id pool.frames.next).peek? id = some pool.frames.next := fun cache => by
      rw [Cache.peek?_promote, if_pos rfl]
    rcases Cache.put_absent h.nodup habsent hput with
      rfl | ⟨victim, object, _, hfree, _, hne, rfl⟩
    · exact ⟨.load h habsent hlength hstored, rfl, hresident _⟩
    · have hevicted : Drifts regime tx drops pool
          { pool with cache := pool.cache.remove victim } :=
        .remove h fun _ owner howner => absurd howner (unowned_of_free hfree owner)
      refine ⟨hevicted.trans (.load hevicted.tidy ?_ hlength hstored), rfl, hresident _⟩
      rw [Cache.peek?_remove]
      exact (if_neg (Ne.symm hne)).trans habsent
  · exact fun _ _ => .refl h

/-- Whoever writes a page under rules that count is its owner. -/
theorem drifts_rewritten {actor : TxId} (hpage : (pool.page ref).Rewritten tx page)
    (howner : regime = .strict → pool.cache.peek? (pool.page ref).id = some ref →
      OwnedBy (pool.locks.table.records (pool.page ref).id) tx) :
    Drifts regime actor drops pool (pool.setPage ref page) := by
  have hid : page.id = (pool.page ref).id := by
    obtain ⟨data, _, rfl⟩ := hpage
    rfl
  have himage : page.beforeImage.isSome := by
    obtain ⟨data, _, rfl⟩ := hpage
    rfl
  refine .setPage h hid (fun hpeek => ?_) fun _ _ _ _ => himage
  rw [hid] at hpeek ⊢
  exact (h.kept hpeek).rewritten hpage fun hstrict => howner hstrict hpeek

theorem ends_onPage {Result : Type} {step : EStateM Failure Page Result} {actor : TxId}
    (hin : ref < pool.frames.next)
    (hstep : Ends step (pool.page ref) (fun _ after => (pool.page ref).Rewritten tx after)
      (fun _ after => after = pool.page ref ∨ (pool.page ref).Rewritten tx after))
    (howner : regime = .strict → pool.cache.peek? (pool.page ref).id = some ref →
      OwnedBy (pool.locks.table.records (pool.page ref).id) tx) :
    Ends (onPage ref step) pool
      (fun _ after => Drifts regime actor drops pool after ∧ after.locks = pool.locks ∧
        after.cache = pool.cache ∧ (after.page ref).beforeImage.isSome)
      (fun _ after => Drifts regime actor drops pool after) := by
  rw [PagePool.ends_onPage]
  apply hstep.mono
  · intro _ page hpage
    refine ⟨h.drifts_rewritten hpage howner, rfl, rfl, ?_⟩
    rw [page_setPage, if_pos ⟨rfl, hin⟩]
    obtain ⟨data, _, rfl⟩ := hpage
    rfl
  · intro _ page hpage
    rcases hpage with rfl | hpage
    · rw [setPage_page]
      exact .refl h
    · exact h.drifts_rewritten hpage howner

end Tidy

/-- Where anything goes, an object may come under its name in place of another. -/
theorem drifts_promote (h : pool.Tidy .free) (hin : ref < pool.frames.next)
    (hnamed : (pool.page ref).id = id) :
    Drifts .free tx drops pool { pool with cache := pool.cache.promote id ref } := by
  have hcases : ∀ {other object}, (pool.cache.promote id ref).peek? other = some object →
      (other = id ∧ object = ref) ∨ pool.cache.peek? other = some object := by
    intro other object hpeek
    rw [Cache.peek?_promote] at hpeek
    split at hpeek
    · next hsame => exact .inl ⟨hsame, (Option.some.inj hpeek).symm⟩
    · exact .inr hpeek
  refine ⟨⟨Cache.nodup_promote h.nodup _ _, fun hpeek => ?_, fun hpeek => ?_, h.compatible,
    fun _ => Page.kept_free .., nofun, nofun, nofun, nofun⟩, fun htable => htable, rfl,
    Nat.le_refl _,
    fun _ _ => rfl, nofun, fun hkeeps => absurd rfl hkeeps, fun _ howner => howner,
    fun hkeeps => absurd rfl hkeeps⟩
  · rcases hcases hpeek with ⟨_, rfl⟩ | hold
    · exact hin
    · exact h.inside hold
  · rcases hcases hpeek with ⟨rfl, rfl⟩ | hold
    · exact hnamed
    · exact h.named hold

namespace Tidy

variable (h : pool.Tidy regime)
include h

/-- A put of an object under its name. Where rules count, it is there already. -/
theorem ends_cachePage (tx : TxId) (drops : PageId → Prop) (hin : ref < pool.frames.next)
    (hnamed : (pool.page ref).id = id)
    (hresident : regime ≠ .free → pool.cache.peek? id = some ref) :
    Ends (cachePage id ref) pool
      (fun _ after => Drifts regime tx drops pool after ∧ after.locks = pool.locks)
      (fun _ after => after = pool) := by
  rw [ends_cachePage_iff]
  by_cases hfree : regime = .free
  · subst hfree
    refine ⟨fun evicted cache hput => ?_, fun _ _ => rfl⟩
    by_cases hroom : id ∈ pool.cache.pages ∨ pool.cache.entries.length < pool.cache.capacity
    · rw [Cache.put_of_room hroom] at hput
      cases hput
      exact ⟨drifts_promote h hin hnamed, rfl⟩
    obtain ⟨habsent, hfull⟩ := not_or.1 hroom
    rw [Cache.put_of_full habsent (Nat.le_of_not_lt hfull)] at hput
    cases hvictim : pool.cache.victim? pool.frames pool.isPinned with
    | none =>
        rw [hvictim] at hput
        cases hput
    | some victim =>
        rw [hvictim] at hput
        cases hput
        have hremoved : Drifts .free tx drops pool
            { pool with cache := pool.cache.remove victim.1 } :=
          .remove h fun hkeeps => absurd rfl hkeeps
        exact ⟨hremoved.trans (drifts_promote hremoved.tidy hin hnamed), rfl⟩
  · have hpeek := hresident hfree
    rw [Cache.put_resident hpeek]
    refine ⟨?_, fun _ hput => by cases hput⟩
    intro _ _ hput
    cases hput
    exact ⟨h.drifts_promoted tx drops hpeek, rfl⟩

end Tidy

end Pool

end PagePool
