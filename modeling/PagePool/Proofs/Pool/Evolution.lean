import Mathlib.Logic.Function.Basic
import PagePool.Proofs.Cache
import PagePool.Proofs.Pool.Standing
import PagePool.Proofs.Storage.Volume

/-!
# How a pool evolves

The standings of all pages of a pool, and what the single updates of the pool do to them. A pool
evolves by a transaction if every page makes moves of that transaction only.
-/

namespace PagePool

open LockRecord Standing

namespace Pool

/-- The bytes that the volume of its table holds for a page. -/
def stored? (pool : Pool) (id : PageId) : Option Bytes :=
  (pool.table? id.table).bind fun table =>
    (pool.volume table.volume).stored? pool.pageSize id.index.toNat

def standing (pool : Pool) (id : PageId) : Standing where
  cached := (pool.cache.peek? id).map fun ref => (ref, pool.page ref)
  stored := pool.stored? id
  records := pool.locks.table.records id

/-- The bytes that whoever gets a page is shown. -/
def content (pool : Pool) (id : PageId) : Bytes :=
  (pool.standing id).content pool.pageSize

/-- The bytes that an abort of its writer takes a page back to. -/
def base (pool : Pool) (id : PageId) : Bytes :=
  (pool.standing id).base pool.pageSize

/-- Every page has at most one object in the cache, and the tables do not share a volume. -/
structure Sound (pool : Pool) : Prop where
  nodup : pool.cache.pages.Nodup
  inside : ∀ {id ref}, pool.cache.peek? id = some ref → ref < pool.frames.next
  named : ∀ {id ref}, pool.cache.peek? id = some ref → (pool.page ref).id = id
  backed : ∀ {id table}, pool.table? id = some table → table.volume < pool.volumes.length
  reliable : ∀ {id table}, pool.table? id = some table →
    (pool.volume table.volume).Reliable pool.pageSize
  apart : ∀ {id other table neighbour}, pool.table? id = some table →
    pool.table? other = some neighbour → table.volume = neighbour.volume → id = other

structure Coherent (pool : Pool) : Prop extends Sound pool where
  coherent : ∀ id, (pool.standing id).Coherent id

structure Evolves (deed : Deed) (tx : TxId) (before after : Pool) : Prop where
  sound : after.Sound
  pageSize_eq : after.pageSize = before.pageSize
  tables_eq : after.tables = before.tables
  next_le : before.frames.next ≤ after.frames.next
  moves : ∀ id, Moves before.pageSize deed id tx (before.standing id) (after.standing id)
  id_eq : ∀ ref, ref < before.frames.next → (after.page ref).id = (before.page ref).id
  data_eq : deed ≠ .change → ∀ ref, ref < before.frames.next →
    (after.page ref).data = (before.page ref).data
  /-- An object that has left the cache does not come back. -/
  fresh : ∀ {id ref}, after.cache.peek? id = some ref →
    before.cache.peek? id = some ref ∨ before.frames.next ≤ ref

variable {pool before middle after : Pool} {deed : Deed} {tx : TxId} {id other : PageId}
  {ref : PageRef} {page : Page}

theorem table?_id {table : Table} {number : UInt32} (h : pool.table? number = some table) :
    table.id = number := by
  simpa using List.find?_some h

theorem standing_cached (h : pool.cache.peek? id = some ref) :
    (pool.standing id).cached = some (ref, pool.page ref) := by
  simp [standing, h]

theorem standing_cached_iff :
    (pool.standing id).cached = some (ref, page) ↔
      pool.cache.peek? id = some ref ∧ page = pool.page ref := by
  simp only [standing, Option.map_eq_some_iff, Prod.mk.injEq]
  constructor
  · rintro ⟨object, hpeek, rfl, rfl⟩
    exact ⟨hpeek, rfl⟩
  · rintro ⟨hpeek, rfl⟩
    exact ⟨ref, hpeek, rfl, rfl⟩

theorem standing_cached_none (h : pool.cache.peek? id = none) :
    (pool.standing id).cached = none := by
  simp [standing, h]

theorem isPinned_iff :
    pool.isPinned id = true ↔ ∃ owner, OwnedBy (pool.locks.table.records id) owner :=
  LockTable.isExclusive_iff

theorem unowned_of_free (hfree : pool.isPinned id = false) (owner : TxId) :
    ¬OwnedBy (pool.locks.table.records id) owner := by
  intro howner
  rw [isPinned_iff.2 ⟨owner, howner⟩] at hfree
  cases hfree

theorem Sound.length_stored (h : pool.Sound) {data : Bytes}
    (hstored : pool.stored? id = some data) : data.length = pool.pageSize := by
  obtain ⟨table, htable, hdata⟩ := Option.bind_eq_some_iff.1 hstored
  exact (h.reliable htable).length_eq _ _ hdata

theorem Sound.ref_inj (h : pool.Sound) (hid : pool.cache.peek? id = some ref)
    (hother : pool.cache.peek? other = some ref) : id = other :=
  (h.named hid).symm.trans (h.named hother)

namespace Evolves

theorem refl (h : pool.Sound) : Evolves deed tx pool pool where
  sound := h
  pageSize_eq := rfl
  tables_eq := rfl
  next_le := Nat.le_refl _
  moves _ := .refl
  id_eq _ _ := rfl
  data_eq _ _ _ := rfl
  fresh := .inl

theorem trans (h : Evolves deed tx before middle) (h' : Evolves deed tx middle after) :
    Evolves deed tx before after where
  sound := h'.sound
  pageSize_eq := h'.pageSize_eq.trans h.pageSize_eq
  tables_eq := h'.tables_eq.trans h.tables_eq
  next_le := Nat.le_trans h.next_le h'.next_le
  moves id := (h.moves id).trans (h.pageSize_eq ▸ h'.moves id)
  id_eq ref hin :=
    (h'.id_eq ref (Nat.lt_of_lt_of_le hin h.next_le)).trans (h.id_eq ref hin)
  data_eq hquiet ref hin :=
    (h'.data_eq hquiet ref (Nat.lt_of_lt_of_le hin h.next_le)).trans (h.data_eq hquiet ref hin)
  fresh hpeek := (h'.fresh hpeek).elim h.fresh fun hnew => .inr (Nat.le_trans h.next_le hnew)

theorem coherent (h : Evolves deed tx before after) (hbefore : before.Coherent) :
    after.Coherent where
  toSound := h.sound
  coherent id := (h.moves id).coherent (hbefore.coherent id)

theorem table?_eq (h : Evolves deed tx before after) (number : UInt32) :
    after.table? number = before.table? number := by
  simp only [table?, h.tables_eq]

end Evolves

theorem Evolves.base_eq (h : Evolves deed tx before after) (hbefore : before.Coherent) :
    after.base = before.base := by
  funext id
  rw [base, base, h.pageSize_eq]
  exact (h.moves id).base_eq (hbefore.coherent id)

/-- Whoever does not write pages changes none. -/
theorem Evolves.content_eq (h : Evolves deed tx before after) (hquiet : deed ≠ .change)
    (hbefore : before.Coherent) : after.content = before.content := by
  funext id
  rw [content, content, h.pageSize_eq]
  exact (h.moves id).content_eq hquiet (hbefore.coherent id)

theorem Evolves.weaken (h : Evolves .access tx before after) : Evolves deed tx before after where
  sound := h.sound
  pageSize_eq := h.pageSize_eq
  tables_eq := h.tables_eq
  next_le := h.next_le
  moves id := by
    refine Relation.ReflTransGen.mono (fun first second hmove => ?_) _ _ (h.moves id)
    cases hmove with
    | load hcached hstored => exact .load hcached hstored
    | evict hcached hclean hstolen hfree => exact .evict hcached hclean hstolen hfree
    | flush hdeed => cases hdeed
    | grant hcompatible hheld howned hheld_others howned_others =>
        exact .grant hcompatible hheld howned hheld_others howned_others
    | write hdeed => cases hdeed
    | mark hdeed => cases hdeed
    | drop hdeed => cases hdeed
    | append hdeed => cases hdeed
  id_eq := h.id_eq
  data_eq _ := h.data_eq (by simp)
  fresh := h.fresh

section Updates

theorem Evolves.of_standing (hsound : after.Sound) (hsize : after.pageSize = before.pageSize)
    (htables : after.tables = before.tables) (hframes : after.frames = before.frames)
    (hstanding : ∀ id, after.standing id = before.standing id) :
    Evolves deed tx before after where
  sound := hsound
  pageSize_eq := hsize
  tables_eq := htables
  next_le := Nat.le_of_eq (by rw [hframes])
  moves id := by
    rw [hstanding id]
    exact .refl
  id_eq ref _ := by simp only [Pool.page, hframes]
  data_eq _ ref _ := by simp only [Pool.page, hframes]
  fresh hpeek := by
    have hcached := standing_cached hpeek
    rw [hstanding] at hcached
    exact .inl (standing_cached_iff.1 hcached).1

theorem Evolves.locks (hsound : pool.Sound) (locks : LockManager)
    (hmoves : ∀ id, Moves pool.pageSize deed id tx (pool.standing id)
      { pool.standing id with records := locks.table.records id }) :
    Evolves deed tx pool { pool with locks } where
  sound := ⟨hsound.nodup, hsound.inside, hsound.named, hsound.backed, hsound.reliable, hsound.apart⟩
  pageSize_eq := rfl
  tables_eq := rfl
  next_le := Nat.le_refl _
  moves := hmoves
  id_eq _ _ := rfl
  data_eq _ _ _ := rfl
  fresh := .inl

theorem Evolves.locks_of_table (hsound : pool.Sound) (locks : LockManager)
    (htable : locks.table = pool.locks.table) : Evolves deed tx pool { pool with locks } := by
  refine .locks hsound locks fun id => ?_
  rw [htable]
  exact .refl

theorem Evolves.samePages (hsound : pool.Sound) {cache : Cache} (hnodup : cache.pages.Nodup)
    (hsame : pool.cache.SamePages cache) : Evolves deed tx pool { pool with cache } := by
  refine .of_standing ⟨hnodup, ?_, ?_, hsound.backed, hsound.reliable, hsound.apart⟩ rfl rfl rfl ?_
  · intro id ref hpeek
    exact hsound.inside (hsame id ▸ hpeek)
  · intro id ref hpeek
    exact hsound.named (hsame id ▸ hpeek)
  · intro id
    simp only [standing, hsame id]
    rfl

theorem next_setPage (pool : Pool) (ref : PageRef) (page : Page) :
    (pool.setPage ref page).frames.next = pool.frames.next :=
  List.length_set

theorem page_setPage (pool : Pool) (ref other : PageRef) (page : Page) :
    (pool.setPage ref page).page other =
      if other = ref ∧ ref < pool.frames.next then page else pool.page other :=
  Frames.page_setPage pool.frames ref other page

theorem setPage_page (pool : Pool) (ref : PageRef) : pool.setPage ref (pool.page ref) = pool := by
  have hset : pool.frames.cells.set ref (pool.frames.frame ref) = pool.frames.cells := by
    by_cases hin : ref < pool.frames.cells.length
    · rw [Frames.frame, List.getD_eq_getElem?_getD, List.getElem?_eq_getElem hin, Option.getD_some,
        List.set_getElem_self]
    · exact List.set_eq_of_length_le (Nat.le_of_not_lt hin)
  unfold setPage Frames.setPage Frames.setFrame
  change { pool with
    frames := { cells := pool.frames.cells.set ref (pool.frames.frame ref) } } = pool
  rw [hset]

section SetPage

variable (hsound : pool.Sound) (hpeek : pool.cache.peek? id = some ref)
include hsound hpeek

theorem page_setPage_self (page : Page) : (pool.setPage ref page).page ref = page := by
  rw [page_setPage, if_pos ⟨rfl, hsound.inside hpeek⟩]

theorem standing_setPage (page : Page) (other : PageId) :
    (pool.setPage ref page).standing other =
      if other = id then { pool.standing id with cached := some (ref, page) }
      else pool.standing other := by
  have hstored : (pool.setPage ref page).stored? other = pool.stored? other := rfl
  have hcache : (pool.setPage ref page).cache = pool.cache := rfl
  have hlocks : (pool.setPage ref page).locks = pool.locks := rfl
  by_cases hsame : other = id
  · subst hsame
    simp only [standing, hcache, hpeek, hstored, hlocks, if_true, Option.map_some,
      page_setPage_self hsound hpeek]
  · rw [if_neg hsame]
    simp only [standing, hcache, hstored, hlocks]
    congr 1
    refine Option.map_congr fun object hobject => ?_
    have hne : object ≠ ref := by
      rintro rfl
      exact hsame (hsound.ref_inj hobject hpeek)
    rw [page_setPage, if_neg fun h => hne h.1]

theorem content_setPage (page : Page) :
    (pool.setPage ref page).content = Function.update pool.content id page.data := by
  funext other
  have hsize : (pool.setPage ref page).pageSize = pool.pageSize := rfl
  rw [content, hsize, standing_setPage hsound hpeek]
  by_cases hsame : other = id
  · rw [if_pos hsame, content_of_cached rfl, hsame, Function.update_self]
  · rw [if_neg hsame, Function.update_of_ne hsame, content]

theorem Sound.setPage (hid : page.id = id) : (pool.setPage ref page).Sound := by
  refine ⟨hsound.nodup, ?_, ?_, hsound.backed, hsound.reliable, hsound.apart⟩
  · intro other object hobject
    rw [next_setPage]
    exact hsound.inside hobject
  · intro other object hobject
    rw [page_setPage]
    split
    · next h =>
      rw [h.1] at hobject
      rw [hid, hsound.ref_inj hobject hpeek]
    · exact hsound.named hobject

theorem Evolves.setPage (hid : page.id = id)
    (hmoves : Moves pool.pageSize deed id tx (pool.standing id)
      { pool.standing id with cached := some (ref, page) })
    (hdata : deed ≠ .change → page.data = (pool.page ref).data) :
    Evolves deed tx pool (pool.setPage ref page) where
  sound := hsound.setPage hpeek hid
  pageSize_eq := rfl
  tables_eq := rfl
  next_le := Nat.le_of_eq (next_setPage pool ref page).symm
  moves other := by
    rw [standing_setPage hsound hpeek]
    split
    · next h => exact h ▸ hmoves
    · exact .refl
  id_eq object _ := by
    rw [page_setPage]
    split
    · next h => rw [h.1, hid, hsound.named hpeek]
    · rfl
  data_eq hquiet object _ := by
    rw [page_setPage]
    split
    · next h => rw [hdata hquiet, h.1]
    · rfl
  fresh := .inl

end SetPage

section SetVolume

variable {table : Table} {number : UInt32} {volume : Volume}
  (hsound : pool.Sound) (htable : pool.table? number = some table)
include hsound htable

theorem volume_setVolume (ref : VolumeRef) :
    (pool.setVolume table.volume volume).volume ref =
      if ref = table.volume then volume else pool.volume ref := by
  have hin := hsound.backed htable
  simp only [Pool.volume, setVolume, List.getD_eq_getElem?_getD, List.getElem?_set]
  by_cases hsame : ref = table.volume
  · simp [hsame, hin]
  · simp [hsame, Ne.symm hsame]

theorem Sound.setVolume (hvolume : volume.Reliable pool.pageSize) :
    (pool.setVolume table.volume volume).Sound := by
  refine ⟨hsound.nodup, hsound.inside, hsound.named, ?_, ?_, hsound.apart⟩
  · intro other neighbour hneighbour
    exact (List.length_set ..).symm ▸ hsound.backed hneighbour
  · intro other neighbour hneighbour
    rw [volume_setVolume hsound htable]
    split
    · exact hvolume
    · exact hsound.reliable hneighbour

theorem stored?_setVolume (other : PageId) :
    (pool.setVolume table.volume volume).stored? other =
      if other.table = number then volume.stored? pool.pageSize other.index.toNat
      else pool.stored? other := by
  have hsame : (pool.setVolume table.volume volume).table? other.table =
      pool.table? other.table := rfl
  have hsize : (pool.setVolume table.volume volume).pageSize = pool.pageSize := rfl
  simp only [stored?, hsame, hsize]
  split
  · next h => rw [h, htable, Option.bind_some, volume_setVolume hsound htable, if_pos rfl]
  · next h =>
    cases hother : pool.table? other.table with
    | none => rfl
    | some neighbour =>
        have hne : neighbour.volume ≠ table.volume := fun heq =>
          h (hsound.apart hother htable heq)
        rw [Option.bind_some, Option.bind_some, volume_setVolume hsound htable, if_neg hne]

omit htable in
theorem stored?_setVolume_page {id : PageId} {data : Bytes}
    (htable : pool.table? id.table = some table)
    (hpages : ∀ index, volume.stored? pool.pageSize index = if index = id.index.toNat then some data
      else (pool.volume table.volume).stored? pool.pageSize index) (other : PageId) :
    (pool.setVolume table.volume volume).stored? other =
      if other = id then some data else pool.stored? other := by
  rw [stored?_setVolume hsound htable]
  by_cases htables : other.table = id.table
  · have hsame : other.index.toNat = id.index.toNat ↔ other = id := by
      obtain ⟨number, index⟩ := other
      obtain ⟨number', index'⟩ := id
      simp only at htables
      simp only [UInt32.toNat_inj, PageId.mk.injEq, htables, true_and]
    simp only [if_pos htables, hpages, hsame]
    split
    · rfl
    · rw [stored?, htables, htable]
      rfl
  · have hne : other ≠ id := by
      rintro rfl
      exact htables rfl
    rw [if_neg htables, if_neg hne]

theorem Evolves.setVolume (hvolume : volume.Reliable pool.pageSize)
    (hpages : ∀ index, volume.stored? pool.pageSize index =
      (pool.volume table.volume).stored? pool.pageSize index) :
    Evolves deed tx pool (pool.setVolume table.volume volume) := by
  refine .of_standing (hsound.setVolume htable hvolume) rfl rfl rfl fun id => ?_
  have hstored : (pool.setVolume table.volume volume).stored? id = pool.stored? id := by
    rw [stored?_setVolume hsound htable]
    split
    · next h =>
      rw [hpages, stored?, h, htable]
      rfl
    · rfl
  simp only [standing, hstored]
  rfl

end SetVolume

end Updates

end Pool

end PagePool
