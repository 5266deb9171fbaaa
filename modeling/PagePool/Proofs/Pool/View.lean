import Mathlib
import PagePool.Proofs.Pool.Completion
import PagePool.Proofs.Pool.Operation

/-!
# What a pool shows

The view of a pool is all that its users depend on, wherever the pages are: the bytes of every page,
the bytes that an abort puts back, the locks, and the outlines of the tables. What an action does to
the view, and how it fails, depends on the view alone.
-/

namespace PagePool

open LockRecord Standing Pool

namespace Standing

/-- The before-image of the object in the cache. -/
def image? (standing : Standing) : Option Bytes :=
  standing.cached.bind fun entry => entry.2.beforeImage

variable {size : Nat} {deed : Deed} {id : PageId} {tx : TxId} {before after standing : Standing}
  {ref : PageRef} {page : Page}

theorem image?_of_cached (h : standing.cached = some (ref, page)) :
    standing.image? = page.beforeImage := by
  simp only [image?, h, Option.bind_some]

theorem image?_of_absent (h : standing.cached = none) : standing.image? = none := by
  simp only [image?, h, Option.bind_none]

theorem base_eq_image? (size : Nat) (standing : Standing) :
    standing.base size = standing.image?.getD (standing.content size) := by
  cases hcached : standing.cached with
  | none => rw [base_of_absent hcached, image?_of_absent hcached, content_of_absent hcached]; rfl
  | some entry =>
      rw [base_of_cached hcached, image?_of_cached hcached, content_of_cached hcached]

/-- Only writers take before-images. -/
theorem Coherent.image?_move (hbefore : before.Coherent id) (hquiet : deed ≠ .change)
    (h : Move size deed id tx before after) : after.image? = before.image? := by
  cases h with
  | load hcached => rw [image?_of_absent hcached, image?_of_cached rfl]; rfl
  | evict hcached hclean hstolen hfree =>
      obtain ⟨_, _, hsettled⟩ := hbefore.settled hfree hcached
      rw [image?_of_cached hcached, hsettled.image_eq, image?_of_absent rfl]
  | flush hdeed hcached => rw [image?_of_cached hcached, image?_of_cached rfl]; rfl
  | grant => rfl
  | write hdeed => exact absurd hdeed hquiet
  | mark hdeed => exact absurd hdeed hquiet
  | drop hdeed => exact absurd hdeed hquiet
  | append hdeed => exact absurd hdeed hquiet

theorem Moves.image?_eq (h : Moves size deed id tx before after) (hbefore : before.Coherent id)
    (hquiet : deed ≠ .change) : after.image? = before.image? :=
  h.induction (motive := fun standing => standing.image? = before.image?) hbefore rfl
    fun hcoherent hmove heq => (hcoherent.image?_move hquiet hmove).trans heq

end Standing

namespace Pool

structure View where
  pageSize : Nat
  tables : List Table
  locks : LockManager
  outline : VolumeRef → Volume.Outline
  content : PageId → Bytes
  image? : PageId → Option Bytes

def view (pool : Pool) : View where
  pageSize := pool.pageSize
  tables := pool.tables
  locks := pool.locks
  outline := pool.outline
  content := pool.content
  image? id := (pool.standing id).image?

namespace View

def table? (view : View) (number : UInt32) : Option Table :=
  view.tables.find? fun table => table.id = number

/-- The page is there, in storage at least. -/
def Has (view : View) (id : PageId) : Prop :=
  ∃ table, view.table? id.table = some table ∧ id.index.toNat < (view.outline table.volume).pages

/-- How a page that is not there is refused. -/
def absence (view : View) (id : PageId) : Failure :=
  match view.table? id.table with
  | none => .error (.tableMissing id.table)
  | some table => (view.outline table.volume).missing view.pageSize table.id id

/-- The number that the next page of a table gets. -/
def next (view : View) (table : Table) : PageId :=
  { table := table.id, index := UInt32.ofNat (view.outline table.volume).pages }

def written (view : View) (id : PageId) (data : Bytes) : View :=
  { view with
    content := Function.update view.content id data
    image? := Function.update view.image? id (some ((view.image? id).getD (view.content id))) }

def extended (view : View) (table : Table) : View :=
  { view with
    outline := Function.update view.outline table.volume
      (view.outline table.volume).extended }

def withLocks (view : View) (locks : LockManager) : View :=
  { view with locks }

/-- The view after the end of a transaction. -/
def finished (view : View) (ending : Ending) (tx : TxId) : View :=
  { view with
    locks := (view.locks.complete tx).2
    content := fun id =>
      if view.locks.table.holds tx id ∧ ending = .abort then
        (view.image? id).getD (view.content id)
      else view.content id
    image? := fun id => if view.locks.table.holds tx id then none else view.image? id }

end View

variable {pool before after : Pool} {deed : Deed} {tx : TxId} {id : PageId} {ref : PageRef}
  {page : Page} {table : Table}

theorem has_view_iff (pool : Pool) (id : PageId) :
    pool.view.Has id ↔ (pool.stored? id).isSome := by
  have htable : pool.view.table? id.table = pool.table? id.table := rfl
  unfold View.Has stored?
  rw [htable]
  cases pool.table? id.table with
  | none => simp
  | some table =>
      rw [Option.bind_some, Volume.isSome_stored?_iff_outline]
      simp [view, outline]

theorem hasRoom_of_view (h : after.view = before.view) (hroom : before.HasRoom table) :
    after.HasRoom table := by
  rw [HasRoom, ← Option.not_isSome_iff_eq_none, ← has_view_iff] at hroom ⊢
  rwa [h]

theorem hasRoomFor_of_view {call : Call} (h : after.view = before.view)
    (hroom : before.HasRoomFor call) : after.HasRoomFor call := fun table hgrown =>
  hasRoom_of_view h (hroom table (grown?_congr (congrArg View.tables h) call ▸ hgrown))

theorem Evolves.view_eq (h : Evolves deed tx before after) (hbefore : before.Coherent)
    (hquiet : deed ≠ .change) (hlocks : after.locks = before.locks)
    (houtline : ∀ ref, after.outline ref = before.outline ref) : after.view = before.view := by
  have hcontent : after.content = before.content := h.content_eq hquiet hbefore
  have himage : ∀ id, (after.standing id).image? = (before.standing id).image? := fun id =>
    (h.moves id).image?_eq (hbefore.coherent id) hquiet
  simp only [view, h.pageSize_eq, h.tables_eq, hlocks, hcontent, himage, funext houtline]

theorem Flushes.view_eq {which : PageId → Prop} (h : before.Flushes which after)
    (hbefore : before.Coherent) : after.view = before.view :=
  (h.evolves 0).view_eq hbefore (by simp) h.locks_eq h.retains.outline_eq

theorem view_setPage_touch (hsound : pool.Sound) (hpeek : pool.cache.peek? id = some ref)
    (data : Bytes) :
    (pool.setPage ref (((pool.page ref).touch tx).withData data)).view =
      pool.view.written id data := by
  have hcached := standing_cached hpeek
  unfold view View.written
  rw [content_setPage hsound hpeek]
  congr 1
  funext other
  dsimp only
  rw [standing_setPage hsound hpeek]
  by_cases hsame : other = id
  · subst hsame
    rw [if_pos rfl, Function.update_self, image?_of_cached rfl, image?_of_cached hcached, content,
      content_of_cached hcached]
    rfl
  · rw [if_neg hsame, Function.update_of_ne hsame]

theorem view_setPage_mark (hsound : pool.Sound) (hpeek : pool.cache.peek? id = some ref)
    (dirty : Bool) : (pool.setPage ref ((pool.page ref).mark tx dirty)).view = pool.view := by
  have hcached := standing_cached hpeek
  have hcontent : (pool.setPage ref ((pool.page ref).mark tx dirty)).content = pool.content := by
    rw [content_setPage hsound hpeek, Function.update_eq_self_iff]
    exact (content_of_cached hcached).symm
  unfold view
  rw [hcontent]
  congr 1
  funext other
  rw [standing_setPage hsound hpeek]
  split
  · next hsame => rw [hsame, image?_of_cached rfl, image?_of_cached hcached]; rfl
  · rfl

theorem Departs.view_eq {ending : Ending} (h : before.Departs ending tx after) :
    after.view = before.view.finished ending tx := by
  have hheld : ∀ id, before.locks.table.holds tx id = true ↔
      HeldBy (before.locks.table.records id) tx := fun _ => LockTable.holds_iff
  have hsettled : ∀ id, HeldBy (before.locks.table.records id) tx →
      after.content id = (before.standing id).outcome before.pageSize ending ∧
      (after.standing id).image? = none := by
    intro id hid
    have hstanding := h.finishes.held_eq id hid
    rw [content, h.finishes.pageSize_eq, hstanding]
    refine ⟨content_settle before.pageSize ending id (before.standing id), ?_⟩
    cases hcached : ((before.standing id).settle before.pageSize ending id).cached with
    | none => exact image?_of_absent hcached
    | some entry => exact (image?_of_cached hcached).trans (imageless_settle hcached)
  unfold view View.finished
  simp only [h.retains.pageSize_eq, h.retains.tables_eq, h.locks_eq, funext h.retains.outline_eq,
    View.mk.injEq, true_and]
  constructor
  · funext id
    by_cases hid : HeldBy (before.locks.table.records id) tx
    · rw [(hsettled id hid).1]
      cases ending with
      | commit => simp [outcome, content]
      | abort => simp [outcome, (hheld id).2 hid, base_eq_image?, content]
    · rw [content, content, h.finishes.others_eq id hid, h.finishes.pageSize_eq,
        if_neg fun hholds => hid ((hheld id).1 hholds.1)]
  · funext id
    by_cases hid : HeldBy (before.locks.table.records id) tx
    · rw [(hsettled id hid).2, if_pos ((hheld id).2 hid)]
    · rw [h.finishes.others_eq id hid, if_neg fun hholds => hid ((hheld id).1 hholds)]

/-- Nothing has changed but what volumes count. -/
structure Still (before after : Pool) : Prop where
  pageSize_eq : after.pageSize = before.pageSize
  tables_eq : after.tables = before.tables
  cache_eq : after.cache = before.cache
  frames_eq : after.frames = before.frames
  locks_eq : after.locks = before.locks
  outline_eq : ∀ ref, after.outline ref = before.outline ref
  stored?_eq : ∀ id, after.stored? id = before.stored? id

/-- A table has got a page of zeros. -/
structure Appends (table : Table) (before after : Pool) : Prop where
  pageSize_eq : after.pageSize = before.pageSize
  tables_eq : after.tables = before.tables
  cache_eq : after.cache = before.cache
  frames_eq : after.frames = before.frames
  locks_eq : after.locks = before.locks
  outline_eq : after.outline = Function.update before.outline table.volume
    (before.outline table.volume).extended
  blank : before.stored? (before.view.next table) = none
  stored?_eq : ∀ id, after.stored? id =
    if id = before.view.next table then some (Bytes.zeros before.pageSize) else before.stored? id

/-- The pool after a look for a page in the cache. -/
def used (pool : Pool) (id : PageId) : Pool :=
  { pool with cache := (pool.cache.get? id).2 }

namespace Still

theorem refl (pool : Pool) : pool.Still pool :=
  ⟨rfl, rfl, rfl, rfl, rfl, fun _ => rfl, fun _ => rfl⟩

theorem standing_eq (h : before.Still after) (id : PageId) :
    after.standing id = before.standing id := by
  simp only [standing, h.cache_eq, Pool.page, h.frames_eq, h.stored?_eq, h.locks_eq]

theorem view_eq (h : before.Still after) : after.view = before.view := by
  have hcontent : after.content = before.content := by
    funext id
    rw [content, content, h.standing_eq, h.pageSize_eq]
  simp only [view, h.pageSize_eq, h.tables_eq, h.locks_eq, hcontent, h.standing_eq,
    funext h.outline_eq]

theorem setVolume (hsound : pool.Sound) {number : UInt32}
    (htable : pool.table? number = some table) {volume : Volume}
    (hpages : ∀ index, volume.stored? pool.pageSize index =
      (pool.volume table.volume).stored? pool.pageSize index)
    (houtline : volume.outline pool.pageSize = pool.outline table.volume) :
    pool.Still (pool.setVolume table.volume volume) where
  pageSize_eq := rfl
  tables_eq := rfl
  cache_eq := rfl
  frames_eq := rfl
  locks_eq := rfl
  outline_eq := (Retains.setVolume hsound htable houtline).outline_eq
  stored?_eq id := by
    rw [stored?_setVolume hsound htable]
    split
    · next hsame =>
      rw [hpages, stored?, hsame, htable]
      rfl
    · rfl

end Still

theorem outline_setVolume (hsound : pool.Sound) {number : UInt32}
    (htable : pool.table? number = some table) {volume : Volume} :
    (pool.setVolume table.volume volume).outline =
      Function.update pool.outline table.volume (volume.outline pool.pageSize) := by
  funext ref
  rw [outline, volume_setVolume hsound htable]
  by_cases hsame : ref = table.volume
  · subst hsame
    rw [if_pos rfl, Function.update_self]
    rfl
  · rw [if_neg hsame, Function.update_of_ne hsame]
    rfl

theorem Appends.view_eq (h : before.Appends table after) (hbefore : before.Coherent) :
    after.view = before.view.extended table := by
  have hstanding : ∀ id, after.standing id =
      { before.standing id with stored := after.stored? id } := fun id => by
    simp only [standing, h.cache_eq, Pool.page, h.frames_eq, h.locks_eq]
  have hcontent : after.content = before.content := by
    funext id
    rw [content, content, hstanding, h.stored?_eq, h.pageSize_eq]
    split
    · next hsame =>
      subst hsame
      have hcached := (hbefore.coherent _).cached_eq_none h.blank
      have hstored : (before.standing (before.view.next table)).stored = none := h.blank
      rw [content_of_absent hcached, content_of_absent (by exact hcached), hstored]
      rfl
    · rfl
  unfold view View.extended
  simp only [h.pageSize_eq, h.tables_eq, h.locks_eq, h.outline_eq, hcontent, hstanding]
  rfl

theorem used_of_resident (hpeek : pool.cache.peek? id = some ref) :
    pool.used id = { pool with cache := pool.cache.promote id ref } := by
  rw [used, Cache.get?_resident hpeek]

theorem used_of_absent (habsent : pool.cache.peek? id = none) : pool.used id = pool := by
  rw [used, Cache.get?_absent habsent]

theorem evolves_used (hpool : pool.Coherent) (id : PageId) :
    Evolves .access tx pool (pool.used id) := by
  obtain ⟨_, hsame, hnodup⟩ := Cache.get?_spec hpool.nodup id
  exact .samePages hpool.toSound hnodup hsame

theorem view_used (hpool : pool.Coherent) (id : PageId) : (pool.used id).view = pool.view :=
  have hused : Evolves .access 0 pool (pool.used id) := evolves_used hpool id
  hused.view_eq hpool (by simp) rfl fun _ => rfl

theorem peek?_used (hpool : pool.Coherent) (id other : PageId) :
    (pool.used id).cache.peek? other = pool.cache.peek? other :=
  (Cache.get?_spec hpool.nodup id).2.1 other

/-- A page that has been used last is in front already. -/
theorem used_eq_self (hcache : after.cache = (pool.used id).cache)
    (hpeek : after.cache.peek? id = some ref) : after.used id = after := by
  rw [used_of_resident hpeek]
  cases hfound : pool.cache.peek? id with
  | none =>
      rw [hcache, used_of_absent hfound, hfound] at hpeek
      cases hpeek
  | some found =>
      rw [used_of_resident hfound] at hcache
      rw [hcache, Cache.peek?_promote, if_pos rfl] at hpeek
      have hfront : after.cache.promote id ref = after.cache := by
        rw [hcache, ← Option.some.inj hpeek, Cache.promote_promote]
      rw [hfront]

/-- A page that has been read from storage has the bytes that the pool shows. -/
theorem Provides.stored?_eq {fetched : Fetched} (h : pool.Provides id fetched)
    (habsent : pool.cache.peek? id = none) :
    pool.stored? id = some (pool.content id) ∧ fetched = .loaded (Page.load id (pool.content id)) := by
  cases fetched with
  | resident ref => cases habsent.symm.trans h
  | loaded page =>
      obtain ⟨_, data, hstored, rfl⟩ := h
      have hcontent : pool.content id = data := by
        have hdata : (pool.standing id).stored = some data := hstored
        rw [Pool.content, content_of_absent (standing_cached_none habsent), hdata]
        rfl
      rw [hcontent]
      exact ⟨hstored, rfl⟩

end Pool

section Steps

variable {pool : Pool} {id : PageId} {ref : PageRef} {page : Page} {table : Table}

theorem install_of_cached (h : pool.cache.peek? page.id = some ref) :
    install page pool = .ok ref (pool.used page.id) := by
  rw [used_of_resident h, ← ends_iff_eq, ends_install_iff, h]
  exact ⟨by rintro _ ⟨⟩; exact ⟨rfl, rfl⟩, nofun⟩

theorem install_of_absent (h : pool.cache.peek? page.id = none) :
    install page pool =
      match pool.cache.put pool.frames pool.isPinned page.id pool.frames.next with
      | .ok (_, cache) =>
          .ok pool.frames.next { pool with cache, frames := pool.frames.alloc page }
      | .error failure => .error (.error failure) pool := by
  cases hput : pool.cache.put pool.frames pool.isPinned page.id pool.frames.next with
  | ok result =>
      rw [← ends_iff_eq, ends_install_iff, h]
      refine ⟨nofun, fun _ => ends_cachePage_iff.2 ?_⟩
      rw [hput]
      exact ⟨by rintro _ _ ⟨⟩; exact ⟨rfl, rfl⟩, nofun⟩
  | error failure =>
      rw [← ends_iff_eq_error, ends_install_iff, h]
      refine ⟨nofun, fun _ => ends_cachePage_iff.2 ?_⟩
      rw [hput]
      exact ⟨nofun, by rintro _ ⟨⟩; exact ⟨rfl, rfl⟩⟩

/-- What comes from storage does not change storage. -/
theorem ends_install_volumes (page : Page) (pool : Pool) :
    Ends (install page) pool
      (fun _ after => after.pageSize = pool.pageSize ∧ after.tables = pool.tables ∧
        after.volumes = pool.volumes)
      (fun failure after => after = pool ∧ ∃ resident, failure = .error (.noVictim resident)) := by
  refine ends_install_iff.2 ⟨fun _ _ => ⟨rfl, rfl, rfl⟩, fun _ => ?_⟩
  refine ends_cachePage_iff.2 ⟨fun _ _ _ => ⟨rfl, rfl, rfl⟩, fun failure hput => ⟨rfl, ?_⟩⟩
  exact ⟨_, congrArg Failure.error (Cache.eq_noVictim_of_put hput)⟩

variable (hpool : pool.Coherent)
include hpool

/-- A page that comes into the cache has been shown before. -/
theorem ends_install_view (tx : TxId) {data : Bytes}
    (hstored : pool.cache.peek? id = none → pool.stored? id = some data) :
    Ends (install (Page.load id data)) pool
      (fun ref after => Evolves .access tx pool after ∧ after.locks = pool.locks ∧
        after.view = pool.view ∧ after.cache.peek? id = some ref)
      (fun failure after => after = pool ∧ ∃ resident, failure = .error (.noVictim resident)) := by
  apply ((ends_install hpool tx hstored).and (ends_install_volumes _ pool)).mono
  · rintro ref after ⟨⟨hevolves, hlocks, hpeek⟩, hsize, _, hvolumes⟩
    refine ⟨hevolves, hlocks, hevolves.view_eq hpool (by simp) hlocks fun ref => ?_, hpeek⟩
    simp only [outline, Pool.volume, hvolumes, hsize]
  · rintro failure after ⟨_, hafter⟩
    exact hafter

theorem ends_readStored_still (htable : pool.table? id.table = some table) :
    Ends (readStored table id) pool (fun _ after => pool.Still after)
      (fun failure after => pool.Still after ∧ pool.stored? id = none ∧
        failure = pool.view.absence id) := by
  have hstored : pool.stored? id =
      (pool.volume table.volume).stored? pool.pageSize id.index.toNat := by
    rw [stored?, htable]
    rfl
  have habsence : pool.view.absence id =
      (pool.outline table.volume).missing pool.pageSize table.id id := by
    have hview : pool.view.table? id.table = some table := htable
    rw [View.absence, hview]
    rfl
  have hreliable := hpool.reliable htable
  rw [ends_readStored_iff]
  apply ((Volume.ends_readPage hreliable table.id id).and
    (Volume.ends_readPage_outline hreliable table.id id)).mono
  · rintro _ volume ⟨⟨_, hmedium, _⟩, houtline⟩
    exact .setVolume hpool.toSound htable (Volume.stored?_congr hmedium) houtline
  · rintro failure volume ⟨⟨_, hmedium, hnone⟩, houtline, hfailure⟩
    exact ⟨.setVolume hpool.toSound htable (Volume.stored?_congr hmedium) houtline,
      hstored.trans hnone, hfailure.trans habsence.symm⟩

/-- A fetch uses the cache; it fails for a page that is not there. -/
theorem ends_fetch_still (id : PageId) :
    Ends (fetch id) pool (fun _ after => (pool.used id).Still after)
      (fun failure after => (pool.used id).Still after ∧ pool.stored? id = none ∧
        failure = pool.view.absence id) := by
  refine ends_fetch_iff.2 ⟨fun ref hpeek => ?_, fun habsent => ?_⟩
  · rw [used_of_resident hpeek]
    exact .refl _
  rw [used_of_absent habsent]
  cases htable : pool.table? id.table with
  | none =>
      have hview : pool.view.table? id.table = none := htable
      have hstored : pool.stored? id = none := by rw [stored?, htable]; rfl
      refine (ends_getTable_of_none htable).mono (fun _ _ => False.elim) ?_
      rintro failure _ ⟨rfl, rfl⟩
      rw [View.absence, hview]
      exact ⟨.refl _, hstored, rfl⟩
  | some table =>
      refine (ends_getTable_of_eq htable).mono ?_ fun _ _ => False.elim
      rintro _ _ ⟨rfl, rfl⟩
      exact ends_readStored_still hpool htable

/-- An append adds a page to the table, or leaves everything as it is. -/
theorem ends_allocatePage_appends (htable : pool.Registered table)
    (hroom : (pool.volume table.volume).HasRoom pool.pageSize) :
    Ends (allocatePage table) pool
      (fun page after => page = pool.view.next table ∧ pool.Appends table after ∧
        after.view = pool.view.extended table ∧
        (pool.view.outline table.volume).isFile = true ∧ pool.pageSize ≠ 0)
      (fun failure after => pool.Still after ∧
        failure = (pool.view.outline table.volume).refusal ∧
        ((pool.view.outline table.volume).isFile = true → pool.pageSize = 0)) := by
  have hreliable := hpool.reliable htable
  rw [ends_allocatePage_iff]
  apply ((Volume.ends_appendPage hreliable hroom).and
    (Volume.ends_appendPage_outline hreliable hroom)).mono
  · rintro index volume ⟨⟨_, hnew, hpages⟩, rfl, hfile, hsize, houtline⟩
    have hregistered : pool.table? (pool.view.next table).table = some table := htable
    have hblank : pool.stored? (pool.view.next table) = none := by
      rw [stored?, hregistered]
      exact hnew
    have happends : pool.Appends table (pool.setVolume table.volume volume) :=
      ⟨rfl, rfl, rfl, rfl, rfl, (outline_setVolume hpool.toSound htable).trans (by rw [houtline]; rfl),
        hblank, stored?_setVolume_page hpool.toSound hregistered hpages⟩
    exact ⟨rfl, happends, happends.view_eq hpool, hfile, hsize⟩
  · rintro failure volume ⟨⟨_, hpages⟩, houtline, hempty, hfailure⟩
    exact ⟨.setVolume hpool.toSound htable hpages houtline, hfailure, hempty⟩

end Steps

end PagePool
