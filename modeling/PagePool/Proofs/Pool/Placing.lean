import PagePool.Proofs.Lock.Modes
import PagePool.Proofs.Pool.Likeness
import PagePool.Proofs.Pool.Lodging
import PagePool.Proofs.Pool.Rows

/-!
# Where an insertion goes

A tuple goes to the first free slot of the first page that has one, as the pool shows the pages; a
new page is appended if there is none. On the way an insertion reads full pages. It gives back the
lock that it took for that, and keeps a lock that its transaction had before, so at every page the
locks are those from before the call, and the pool shows what it showed then. What comes and goes in
the cache is not to be seen in either.
-/

namespace PagePool

open LockRecord Standing Pool

namespace Pool

/-- A gate holds up the reads of the page. -/
def View.isGated (view : View) (id : PageId) : Bool :=
  ((view.table? id.table).map fun table => (view.outline table.volume).gateClosed).getD false

/-- All slots of a page are used, as the pool shows it. -/
def Full (pool : Pool) (layout : Layout) (page : PageId) : Prop :=
  ∀ slot < layout.slotCount, (pool.shownRows ⟨page, slot⟩).isSome

/-- The lowest free slot of a page, as the pool shows it. -/
structure FirstFree (pool : Pool) (layout : Layout) (rid : RecordId) : Prop where
  lt : rid.slot < layout.slotCount
  free : pool.shownRows rid = none
  used : ∀ earlier < rid.slot, (pool.shownRows ⟨rid.page, earlier⟩).isSome

/-- The place of the next tuple of a table with a number of pages: the lowest free slot of the first
page that is not full, or the first slot of a page behind the last one if all are full. -/
inductive Lands (pool : Pool) (table : Table) (layout : Layout) (count : Nat) : Nat → Nat → Prop
  where
  | found {index slot : Nat} (hindex : index < count)
      (hearlier : ∀ earlier < index, pool.Full layout (table.page earlier))
      (hfree : pool.FirstFree layout ⟨table.page index, slot⟩) :
      pool.Lands table layout count index slot
  | appended (hfull : ∀ index < count, pool.Full layout (table.page index)) :
      pool.Lands table layout count count 0

/-- An insertion has put a tuple into a slot, and added the page if the table did not have it. Its
transaction has locked the page for writing. No other tuple and no other lock is different. -/
structure Places (before : Pool) (tx : TxId) (table : Table) (count index slot : Nat)
    (cells : List Cell) (after : Pool) : Prop where
  rows : after.shownRows = Function.update before.shownRows ⟨table.page index, slot⟩ (some cells)
  pages : (after.volume table.volume).pageCount after.pageSize = .ok (max count (index + 1))
  modes : after.locks.table.mode? =
    LockModes.put before.locks.table.mode? tx (table.page index) (some .exclusive)

/-- Nobody else has a lock that keeps a transaction from reading the pages before the place of the
next tuple, or from writing the page with that place. -/
def Unhindered (pool : Pool) (tx : TxId) (table : Table) (layout : Layout) (count : Nat) : Prop :=
  ∀ {index slot}, pool.Lands table layout count index slot →
    LockModes.Free pool.locks.table.mode? ⟨tx, table.page index, .exclusive⟩ ∧
      ∀ earlier < index, LockModes.Free pool.locks.table.mode? ⟨tx, table.page earlier, .shared⟩

/-- A heap table whose pages have slots for tuples of this width. -/
structure Seats (pool : Pool) (table : Table) (layout : Layout) (tuple : Tuple) : Prop where
  registered : pool.Registered table
  heap : table.kind = .heap layout
  slots : 0 < layout.slotCount
  width : tuple.width = layout.schema.fields

/-- A table whose pages have numbers, in a file that can be read. -/
structure Paged (pool : Pool) (table : Table) (count : Nat) : Prop where
  registered : pool.Registered table
  isFile : (pool.outline table.volume).isFile = true
  ungated : (pool.outline table.volume).gateClosed = false
  counted : (pool.volume table.volume).pageCount pool.pageSize = .ok count
  limited : count ≤ UInt32.size

/-- A heap table that a tuple can be inserted into: its pages have slots for tuples of this width, its
file can be read, one more page can be given a number, and nobody is in the way. -/
structure Accepts (pool : Pool) (tx : TxId) (table : Table) (layout : Layout) (count : Nat)
    (tuple : Tuple) : Prop extends Seats pool table layout tuple where
  isFile : (pool.outline table.volume).isFile = true
  ungated : (pool.outline table.volume).gateClosed = false
  counted : (pool.volume table.volume).pageCount pool.pageSize = .ok count
  numbered : count < UInt32.size
  unhindered : pool.Unhindered tx table layout count

/-- The page before the next one to look at is in the cache. -/
def HasLatest (pool : Pool) (table : Table) (next : Nat) : Prop :=
  ∀ last, next = last + 1 → (pool.cache.peek? (table.page last)).isSome

/-- What looking at pages leaves alone: the objects of those who have locked their pages for
writing, and storage. Pages come into the cache. -/
structure Browses (before after : Pool) : Prop extends before.Lodges after where
  ownedBy : ∀ {id owner}, OwnedBy (before.locks.table.records id) owner →
    OwnedBy (after.locks.table.records id) owner
  cached_eq : ∀ {id owner entry}, OwnedBy (before.locks.table.records id) owner →
    (before.standing id).cached = some entry → (after.standing id).cached = some entry
  stored_eq : ∀ {id data}, before.stored? id = some data → after.stored? id = some data

/-- A pool that shows what is to be seen, under the given locks, after pages of the first pool have
been looked at. Who waits for whom, and which pages without an owner are in the cache, is left
open. -/
structure Shows (view : View) (modes : LockModes) (pool first : Pool) : Prop where
  coherent : pool.Coherent
  view_eq : pool.view = view.withLocks pool.locks
  modes_eq : pool.locks.table.mode? = modes
  policy_eq : pool.locks.policy = view.locks.policy
  browses : first.Browses pool

variable {pool before middle after first : Pool} {view : View} {modes : LockModes} {tx : TxId}
  {id : PageId} {ref : PageRef} {table : Table} {layout : Layout} {count index slot : Nat}
  {request : Request} {locks : LockManager} {insertion : Insertion} {deed : Deed}

theorem HasLatest.zero (pool : Pool) (table : Table) : pool.HasLatest table 0 :=
  fun _ hnext => nomatch hnext

theorem HasLatest.succ {last : Nat} (hpeek : pool.cache.peek? (table.page last) = some ref) :
    pool.HasLatest table (last + 1) := by
  rintro _ ⟨⟩
  rw [hpeek]
  rfl

theorem shownRows_congr (htables : after.tables = pool.tables)
    (hcontent : after.content = pool.content) : after.shownRows = pool.shownRows := by
  rw [shownRows, shownRows, rowsOf_congr htables, hcontent]

theorem FirstFree.not_full {rid : RecordId} (h : pool.FirstFree layout rid) :
    ¬pool.Full layout rid.page := fun hfull => by
  have hused := hfull rid.slot h.lt
  rw [h.free] at hused
  cases hused

theorem FirstFree.eq {slot' : Nat} (h : pool.FirstFree layout ⟨id, slot⟩)
    (h' : pool.FirstFree layout ⟨id, slot'⟩) : slot' = slot := by
  rcases Nat.lt_trichotomy slot' slot with hlt | heq | hlt
  · have hused := h.used slot' hlt
    rw [h'.free] at hused
    cases hused
  · exact heq
  · have hused := h'.used slot hlt
    rw [h.free] at hused
    cases hused

theorem FirstFree.congr {rid : RecordId} (h : pool.FirstFree layout rid)
    (hrows : after.shownRows = pool.shownRows) : after.FirstFree layout rid := by
  obtain ⟨hlt, hfree, hused⟩ := h
  rw [← hrows] at hfree hused
  exact ⟨hlt, hfree, hused⟩

/-- All slots of a page of zeros are free. -/
theorem firstFree_of_zeros (hfitted : pool.Fitted) (hlayout : pool.layout? id.table = some layout)
    (hslots : 0 < layout.slotCount) (hcontent : pool.content id = Bytes.zeros pool.pageSize) :
    pool.FirstFree layout ⟨id, 0⟩ := by
  refine ⟨hslots, ?_, fun _ hlt => absurd hlt (Nat.not_lt_zero _)⟩
  rw [shownRows, rowsOf, hlayout, Option.bind_some, hcontent, ← hfitted.pageSize_eq hlayout]
  exact layout.row?_zeros id 0

/-- All slots of a page that does not exist are free. -/
theorem Coherent.firstFree_of_blank (h : pool.Coherent) (hfitted : pool.Fitted)
    (hlayout : pool.layout? id.table = some layout) (hslots : 0 < layout.slotCount)
    (hstored : pool.stored? id = none) : pool.FirstFree layout ⟨id, 0⟩ := by
  refine firstFree_of_zeros hfitted hlayout hslots ?_
  rw [content, content_of_absent ((h.coherent id).cached_eq_none hstored)]
  exact congrArg (Option.getD · _) hstored

theorem exists_firstFree (h : ¬pool.Full layout id) : ∃ slot, pool.FirstFree layout ⟨id, slot⟩ := by
  classical
  simp only [Full, not_forall] at h
  obtain ⟨hlt, hfree⟩ := Nat.find_spec h
  refine ⟨Nat.find h, hlt, Option.not_isSome_iff_eq_none.1 hfree, fun earlier hearlier => ?_⟩
  have hmin := Nat.find_min h hearlier
  simp only [not_exists, not_not] at hmin
  exact hmin (Nat.lt_trans hearlier hlt)

/-- There is a place for every tuple. -/
theorem exists_lands (pool : Pool) (table : Table) (layout : Layout) (count : Nat) :
    ∃ index slot, pool.Lands table layout count index slot := by
  classical
  by_cases hfull : ∀ index < count, pool.Full layout (table.page index)
  · exact ⟨count, 0, .appended hfull⟩
  · simp only [not_forall] at hfull
    obtain ⟨hindex, hroom⟩ := Nat.find_spec hfull
    obtain ⟨slot, hfree⟩ := exists_firstFree hroom
    refine ⟨Nat.find hfull, slot, .found hindex (fun earlier hearlier => ?_) hfree⟩
    have hmin := Nat.find_min hfull hearlier
    simp only [not_exists, not_not] at hmin
    exact hmin (Nat.lt_trans hearlier hindex)

namespace Lands

variable (h : pool.Lands table layout count index slot)
include h

theorem index_le : index ≤ count := by
  cases h with
  | found hindex => exact Nat.le_of_lt hindex
  | appended => exact Nat.le_refl count

theorem full {earlier : Nat} (hearlier : earlier < index) :
    pool.Full layout (table.page earlier) := by
  cases h with
  | found _ hfull => exact hfull earlier hearlier
  | appended hfull => exact hfull earlier hearlier

theorem firstFree (hindex : index < count) : pool.FirstFree layout ⟨table.page index, slot⟩ := by
  cases h with
  | found _ _ hfree => exact hfree
  | appended => exact absurd hindex (Nat.lt_irrefl _)

end Lands

theorem outline_extended (pool : Pool) (table : Table) :
    (pool.view.extended table).outline table.volume = (pool.outline table.volume).extended :=
  Function.update_self ..

theorem Registered.layout?_eq (h : pool.Registered table) (hheap : table.kind = .heap layout) :
    pool.layout? table.id = some layout := by
  have hregistered : pool.table? table.id = some table := h
  rw [layout?, hregistered, Option.bind_some, Table.layout?, hheap]

namespace Seats

variable {tuple : Tuple} (h : pool.Seats table layout tuple)
include h

theorem congr (htables : after.tables = pool.tables) : after.Seats table layout tuple where
  registered := by
    rw [Registered, table?, htables]
    exact h.registered
  heap := h.heap
  slots := h.slots
  width := h.width

theorem layout?_eq : pool.layout? table.id = some layout :=
  h.registered.layout?_eq h.heap

theorem pageSize_ne_zero (hfitted : pool.Fitted) : pool.pageSize ≠ 0 := by
  rw [← hfitted.pageSize_eq h.layout?_eq]
  intro hzero
  have hslots := h.slots
  rw [Layout.slotCount, hzero, Nat.zero_mul, Nat.zero_div] at hslots
  exact Nat.lt_irrefl 0 hslots

end Seats

namespace Paged

variable (h : pool.Paged table count)
include h

theorem count_eq : (pool.view.outline table.volume).count pool.view.pageSize = .ok count :=
  (Volume.pageCount_eq ..).symm.trans h.counted

theorem pageSize_ne_zero : pool.pageSize ≠ 0 := fun hzero => by
  have hcount := h.count_eq
  rw [Volume.Outline.count, if_pos ⟨h.isFile, hzero⟩] at hcount
  cases hcount

theorem pages_eq : (pool.outline table.volume).pages = count := by
  have hcount := h.count_eq
  rw [Volume.Outline.count, if_neg fun hsize => h.pageSize_ne_zero hsize.2] at hcount
  exact Except.ok.inj hcount

theorem has (hindex : index < count) : pool.view.Has (table.page index) := by
  have hnumber : (table.page index).index.toNat = index :=
    UInt32.toNat_ofNat_of_lt' (Nat.lt_of_lt_of_le hindex h.limited)
  refine ⟨table, h.registered, ?_⟩
  rw [hnumber]
  exact Nat.lt_of_lt_of_eq hindex h.pages_eq.symm

theorem congr (htables : after.tables = pool.tables) (hsize : after.pageSize = pool.pageSize)
    (houtline : after.outline = pool.outline) : after.Paged table count where
  registered := by
    rw [Registered, table?, htables]
    exact h.registered
  isFile := houtline ▸ h.isFile
  ungated := houtline ▸ h.ungated
  counted := by
    have hcount := h.count_eq
    rw [Volume.pageCount_eq]
    change (after.outline table.volume).count after.pageSize = _
    rwa [hsize, houtline]
  limited := h.limited

theorem isGated_eq : pool.view.isGated (table.page index) = false := by
  have hregistered : pool.view.table? (table.page index).table = some table := h.registered
  rw [View.isGated, hregistered]
  exact h.ungated

end Paged

namespace Accepts

variable {tuple : Tuple} (h : pool.Accepts tx table layout count tuple)
include h

theorem paged : pool.Paged table count :=
  ⟨h.registered, h.isFile, h.ungated, h.counted, Nat.le_of_lt h.numbered⟩

theorem toNat_count : (table.page count).index.toNat = count :=
  UInt32.toNat_ofNat_of_lt' h.numbered

theorem has_extended : (pool.view.extended table).Has (table.page count) := by
  refine ⟨table, h.registered, ?_⟩
  rw [h.toNat_count, outline_extended]
  exact Nat.lt_succ_of_le (Nat.le_of_eq h.paged.pages_eq.symm)

theorem isGated_extended : (pool.view.extended table).isGated (table.page count) = false := by
  have hregistered : (pool.view.extended table).table? (table.page count).table = some table :=
    h.registered
  rw [View.isGated, hregistered, Option.map_some, outline_extended]
  exact h.ungated

theorem count_extended : ((pool.view.extended table).outline table.volume).count
    (pool.view.extended table).pageSize = .ok (count + 1) := by
  rw [outline_extended, Volume.Outline.count, if_neg fun hsize => h.paged.pageSize_ne_zero hsize.2]
  exact congrArg (Except.ok <| · + 1) h.paged.pages_eq

/-- The place of the next tuple is the first free slot of its page, be it new. -/
theorem firstFree (hpool : pool.Coherent) (hfitted : pool.Fitted)
    (hlands : pool.Lands table layout count index slot) :
    pool.FirstFree layout ⟨table.page index, slot⟩ := by
  cases hlands with
  | found _ _ hfree => exact hfree
  | appended hfull =>
      refine hpool.firstFree_of_blank hfitted h.layout?_eq h.slots ?_
      rw [← Option.not_isSome_iff_eq_none, ← has_view_iff]
      rintro ⟨found, hfound, hless⟩
      obtain rfl := Option.some.inj (h.registered.symm.trans hfound)
      rw [h.toNat_count] at hless
      exact Nat.ne_of_lt hless h.paged.pages_eq.symm

end Accepts

namespace Browses

theorem refl (pool : Pool) : pool.Browses pool :=
  ⟨.refl pool, fun howner => howner, fun _ hcached => hcached, fun hstored => hstored⟩

theorem trans (h : before.Browses middle) (h' : middle.Browses after) : before.Browses after where
  toLodges := h.toLodges.trans h'.toLodges
  ownedBy := h'.ownedBy ∘ h.ownedBy
  cached_eq howner hcached := h'.cached_eq (h.ownedBy howner) (h.cached_eq howner hcached)
  stored_eq := h'.stored_eq ∘ h.stored_eq

theorem of_evolves (h : Evolves .access tx before after) (hlodges : before.Lodges after) :
    before.Browses after where
  toLodges := hlodges
  ownedBy := h.ownedBy
  cached_eq {id} _ _ howner hcached := (h.moves id).cached_eq howner hcached
  stored_eq {id} _ hstored := (h.moves id).stored_eq nofun hstored

theorem withLocks (h : Evolves deed tx pool { pool with locks }) :
    pool.Browses { pool with locks } where
  toLodges := .of_eq rfl rfl rfl
  ownedBy := h.ownedBy
  cached_eq _ hcached := hcached
  stored_eq hstored := hstored

end Browses

namespace Shows

theorem refl (hpool : pool.Coherent) : pool.Shows pool.view pool.locks.table.mode? pool :=
  ⟨hpool, rfl, rfl, rfl, .refl pool⟩

variable (h : pool.Shows view modes first)
include h

theorem content_eq : pool.content = view.content :=
  congrArg View.content h.view_eq

theorem tables_eq : pool.tables = view.tables :=
  congrArg View.tables h.view_eq

theorem outline_eq : pool.outline = view.outline :=
  congrArg View.outline h.view_eq

theorem pageSize_eq : pool.pageSize = view.pageSize :=
  congrArg View.pageSize h.view_eq

theorem stored?_isSome_iff : (pool.stored? id).isSome ↔ view.Has id := by
  rw [← has_view_iff, h.view_eq]
  rfl

theorem table?_eq (number : UInt32) : pool.table? number = view.table? number := by
  rw [table?, h.tables_eq]
  rfl

theorem isGated_eq (id : PageId) : pool.isGated id = view.isGated id := by
  unfold Pool.isGated View.isGated
  rw [h.table?_eq, ← h.outline_eq]
  rfl

theorem pageCount_eq (table : Table) : (pool.volume table.volume).pageCount pool.pageSize =
    (view.outline table.volume).count view.pageSize := by
  rw [Volume.pageCount_eq, ← h.pageSize_eq, ← h.outline_eq]
  rfl

/-- Locks are not to be seen. -/
theorem withLocks (hevolves : Evolves deed tx pool { pool with locks })
    (hpolicy : locks.policy = pool.locks.policy) :
    Shows view locks.table.mode? { pool with locks } first where
  coherent := hevolves.coherent h.coherent
  view_eq := congrArg (View.withLocks · locks) h.view_eq
  modes_eq := rfl
  policy_eq := hpolicy.trans h.policy_eq
  browses := h.browses.trans (.withLocks hevolves)

/-- Who waits for whom is left open. -/
theorem of_table (htable : locks.table = pool.locks.table)
    (hpolicy : locks.policy = pool.locks.policy) : Shows view modes { pool with locks } first := by
  have hevolves : Evolves .access 0 pool { pool with locks } :=
    .locks_of_table h.coherent.toSound locks htable
  have hshows := h.withLocks hevolves hpolicy
  rwa [htable, h.modes_eq] at hshows

theorem blockers_eq (hfree : modes.Free request) : pool.locks.table.blockers request = [] :=
  LockTable.free_iff.1 (h.modes_eq ▸ hfree)

theorem granted (hfree : modes.Free request) (htable : locks.table = pool.locks.table.grant request)
    (hpolicy : locks.policy = pool.locks.policy) :
    Shows view (modes.grant request) { pool with locks } first := by
  have hblockers := h.blockers_eq hfree
  have hevolves : Evolves .access request.tx pool { pool with locks } :=
    evolves_grant h.coherent hblockers htable
  have hshows := h.withLocks hevolves hpolicy
  rwa [htable, LockTable.mode?_grant hblockers, h.modes_eq] at hshows

theorem release (hreader : modes tx id ≠ some .exclusive) :
    ∃ released after, releaseLock tx id pool = .ok released after ∧
      after.Shows view (modes.put tx id none) first ∧ after.cache = pool.cache := by
  have hmodes := h.modes_eq
  subst hmodes
  have hunowned : ¬OwnedBy (pool.locks.table.records id) tx := fun howner =>
    hreader (LockTable.mode?_eq_exclusive_iff.2 howner)
  have htable : (pool.locks.release tx id).2.table = pool.locks.table.release tx id := by
    unfold LockManager.release
    split <;> rfl
  have hpolicy : (pool.locks.release tx id).2.policy = pool.locks.policy := by
    unfold LockManager.release
    split <;> rfl
  have hrun : releaseLock tx id pool = .ok (pool.locks.release tx id).1
      { pool with locks := (pool.locks.release tx id).2 } := rfl
  have hevolves := ((ends_releaseLock h.coherent hunowned).of_ok hrun).1.evolves
  have hshows := h.withLocks hevolves hpolicy
  rw [htable, LockTable.mode?_release] at hshows
  exact ⟨_, _, hrun, hshows, rfl⟩

/-- A page that is there comes into the cache, unless the cache has no room for it. -/
theorem arrives (hhas : view.Has id) :
    ∃ fetched middle, fetch id pool = .ok fetched middle ∧ middle.Shows view modes first ∧
      middle.Provides id fetched ∧ middle.cache = (pool.used id).cache ∧
      ((∃ ref after, install (Page.load id (middle.content id)) middle = .ok ref after ∧
          after.Shows view modes first ∧ after.cache.peek? id = some ref) ∨
        ∃ resident after, install (Page.load id (middle.content id)) middle =
          .error (.error (.noVictim resident)) after ∧ middle.Excludes id) := by
  have hstored := h.stored?_isSome_iff.2 hhas
  have hfetch := (ends_fetch h.coherent 0 id).and (ends_fetch_still h.coherent id)
  unfold Ends at hfetch
  cases hrun : fetch id pool with
  | error failure after =>
      rw [hrun] at hfetch
      obtain ⟨_, _, hnone, _⟩ := hfetch
      rw [hnone] at hstored
      cases hstored
  | ok fetched middle =>
      rw [hrun] at hfetch
      obtain ⟨⟨hevolves, hlocks, hprovides⟩, hstill⟩ := hfetch
      have hview : middle.view = pool.view := hstill.view_eq.trans (view_used h.coherent id)
      have hbrowses : pool.Browses middle := .of_evolves hevolves <|
        (Lodges.used pool id).trans (.of_eq hstill.tables_eq hstill.cache_eq hstill.frames_eq)
      have hmiddle : middle.Shows view modes first :=
        ⟨hevolves.coherent h.coherent, by rw [hview, h.view_eq, hlocks], hlocks ▸ h.modes_eq,
          hlocks ▸ h.policy_eq, h.browses.trans hbrowses⟩
      refine ⟨fetched, middle, rfl, hmiddle, hprovides, hstill.cache_eq, ?_⟩
      have hinstall := ((@ends_install_view middle id hmiddle.coherent 0 (middle.content id)
        fun hnone => (hprovides.stored?_eq hnone).1).and
          (hmiddle.coherent.ends_install_lodges _)).and
            (ends_install_exact hmiddle.coherent.nodup hmiddle.coherent.clean_of_free id _)
      unfold Ends at hinstall
      cases hinstalled : install (Page.load id (middle.content id)) middle with
      | error failure after =>
          rw [hinstalled] at hinstall
          obtain ⟨⟨⟨_, resident, rfl⟩, _⟩, _, habsent, hfull, _⟩ := hinstall
          exact .inr ⟨resident, after, rfl, ⟨habsent, hfull⟩⟩
      | ok ref after =>
          rw [hinstalled] at hinstall
          obtain ⟨⟨⟨hevolves', hlocks', hview', hpeek⟩, hlodges⟩, _⟩ := hinstall
          exact .inl ⟨ref, after, rfl,
            ⟨hevolves'.coherent hmiddle.coherent, by rw [hview', hmiddle.view_eq, hlocks'],
              hlocks' ▸ hmiddle.modes_eq, hlocks' ▸ hmiddle.policy_eq,
              hmiddle.browses.trans (.of_evolves hevolves' hlodges)⟩, hpeek⟩

theorem crowded (hout : pool.Excludes id) (hreadable : first.Readable) {given : List PageId}
    (hplaces : given.length < first.cache.capacity) :
    ∃ other owner, modes owner other = some .exclusive ∧ other ≠ id ∧ other ∉ given := by
  obtain ⟨other, owner, howner, hother⟩ := hout.crowded (h.browses.readable hreadable)
    h.coherent.nodup (h.browses.capacity_eq ▸ hplaces)
  exact ⟨other, owner, h.modes_eq ▸ LockTable.mode?_eq_exclusive_iff.2 howner, hother⟩

omit h in
theorem fitted (h : pool.Shows first.view modes first) (hfitted : first.Fitted) : pool.Fitted :=
  hfitted.congr h.tables_eq h.pageSize_eq

omit h in
theorem layout?_eq (h : pool.Shows first.view modes first)
    (hlayout : first.layout? table.id = some layout) : pool.layout? table.id = some layout :=
  (congrFun (Pool.layout?_eq h.tables_eq) _).trans hlayout

omit h in
theorem shownRows_eq (h : pool.Shows first.view modes first) : pool.shownRows = first.shownRows :=
  shownRows_congr h.tables_eq h.content_eq

omit h in
theorem paged (h : pool.Shows first.view modes first) (hpaged : first.Paged table count) :
    pool.Paged table count :=
  hpaged.congr h.tables_eq h.pageSize_eq h.outline_eq

end Shows

end Pool

section Stages

variable {pool first : Pool} {view : View} {modes : LockModes} {tx : TxId} {table : Table}
  {layout : Layout} {ref : PageRef} {id : PageId} {insertion : Insertion} {index bound : Nat}

/-- The pool's part of an insertion is not to be seen. -/
theorem ends_hold_view (hpool : pool.Coherent) (hpeek : pool.cache.peek? id = some ref)
    (howner : OwnedBy (pool.locks.table.records id) tx)
    (himage : (pool.page ref).beforeImage.isSome) (pooled : Bool) :
    Ends (hold pooled tx [ref]) pool
      (fun _ after => after.Coherent ∧ after.view = pool.view) (fun _ _ => False) := by
  cases pooled with
  | false => exact ⟨hpool, rfl⟩
  | true =>
      have hmarked : Evolves .change tx pool
          (pool.setPage ref ((pool.page ref).mark tx true)) :=
        .setPage hpool.toSound hpeek (hpool.named hpeek)
          (.single (.mark rfl (standing_cached hpeek) howner himage)) fun h => absurd rfl h
      have hcoherent := hmarked.coherent hpool
      change Ends (holdDirty tx [ref]) pool _ _
      rw [Ends, Likeness.holdDirty_cons hpool.toSound hpeek howner]
      exact ⟨(@evolves_used _ tx hcoherent id).coherent hcoherent,
        (view_used hcoherent id).trans (view_setPage_mark hpool.toSound hpeek true)⟩

section Page

variable (hpool : pool.Coherent) (hfitted : pool.Fitted)
  (hpeek : pool.cache.peek? id = some ref) (hlayout : pool.layout? id.table = some layout)
include hpool hfitted hpeek hlayout

theorem exists_freeSlots_full :
    ∃ free, layout.freeSlots (pool.page ref) = .ok free ∧ (0 < free ↔ ¬pool.Full layout id) := by
  have hlength : (pool.page ref).data.length = layout.pageSize :=
    (hpool.length_page hpeek).trans (hfitted.pageSize_eq hlayout).symm
  obtain ⟨free, hrun, hfree⟩ := Layout.exists_freeSlots hlength
  refine ⟨free, hrun, hfree.trans ?_⟩
  have hrow : ∀ slot, pool.shownRows ⟨id, slot⟩ = layout.row? (pool.page ref) slot := fun slot =>
    shownRows_of_cached hpeek hlayout rfl
  simp only [Full, hrow, not_forall, Option.not_isSome_iff_eq_none, exists_prop]

section Place

variable (howner : OwnedBy (pool.locks.table.records id) tx) (insertion : Insertion)
include howner

theorem ends_place_view :
    Ends (insertion.place tx layout ref) pool
      (fun step after => ∃ slot, pool.FirstFree layout ⟨id, slot⟩ ∧
        step = .done ⟨.ok .unit, some { insertion.tuple with rid := some ⟨id, slot⟩ }⟩ ∧
        after.Coherent ∧ ∃ data, after.view = pool.view.written id data)
      (fun failure after => after = pool ∧
        (insertion.tuple.width ≠ layout.schema.fields ∨
          pool.Full layout id ∧ failure = .error (.pageFull id))) := by
  have hlength : (pool.page ref).data.length = layout.pageSize :=
    (hpool.length_page hpeek).trans (hfitted.pageSize_eq hlayout).symm
  have hrow : ∀ slot, pool.shownRows ⟨id, slot⟩ = layout.row? (pool.page ref) slot := fun slot =>
    shownRows_of_cached hpeek hlayout rfl
  rw [ends_place_iff, ends_onPage]
  refine ((layout.ends_insert tx _ insertion.tuple).and
    (Layout.ends_insert_exact hlength)).mono ?_ ?_
  · rintro _ page ⟨hpage, _, slot, hfirst, rfl, hfilled⟩
    have hview := @view_setPage_touch pool tx id ref hpool.toSound hpeek
      ((pool.page ref).data.setBit slot true |>.overwrite (layout.slotOffset slot)
        insertion.tuple.encode)
    rw [← Layout.filled_eq, ← hfilled] at hview
    obtain ⟨hevolves, _, _, _, himage⟩ := evolves_rewritten hpool.toSound hpeek howner hpage
    refine (ends_hold_view (hevolves.coherent hpool) hpeek howner himage insertion.pooled).mono ?_
      fun _ _ => False.elim
    rintro _ after ⟨hcoherent, hheld⟩
    rw [hpool.named hpeek]
    refine ⟨slot, ⟨hfirst.lt, (hrow slot).trans hfirst.free, fun earlier hlt => ?_⟩, rfl, hcoherent,
      _, hheld.trans hview⟩
    rw [hrow]
    exact hfirst.used earlier hlt
  · rintro failure _ ⟨_, rfl, hreason⟩
    rw [setPage_page]
    refine ⟨rfl, ?_⟩
    rcases hreason with ⟨hwidth, _⟩ | ⟨_, hfull, rfl⟩
    · exact .inl hwidth
    · refine .inr ⟨fun slot hslot => ?_, by rw [hpool.named hpeek]⟩
      rw [hrow]
      exact hfull slot hslot

/-- A tuple is put into the first free slot of a page that its transaction owns, and nothing else is
to be seen; or the pool is as it was, and the width of the tuple or the want of a slot is why. -/
theorem ends_place_exact :
    Ends (insertion.place tx layout ref) pool
      (fun step after => ∃ slot, pool.FirstFree layout ⟨id, slot⟩ ∧
        step = .done ⟨.ok .unit, some { insertion.tuple with rid := some ⟨id, slot⟩ }⟩ ∧
        after.shownRows =
          Function.update pool.shownRows ⟨id, slot⟩ (some insertion.tuple.cells) ∧
        after.Coherent ∧ ∃ data, after.view = pool.view.written id data)
      (fun failure after => after = pool ∧
        (insertion.tuple.width ≠ layout.schema.fields ∨
          pool.Full layout id ∧ failure = .error (.pageFull id))) := by
  refine ((ends_place_view hpool hfitted hpeek hlayout howner insertion).and
    (ends_place_edits hpool hfitted hpeek howner hlayout insertion)).mono ?_ fun _ _ h => h.1
  rintro _ after ⟨⟨slot, hfirst, rfl, hview⟩, slot', hstep, hedits⟩
  cases hstep
  exact ⟨slot, hfirst, rfl, (Rows.apply_eq_some_iff.1 hedits.applied).2, hview⟩

end Place

end Page

section Inspect

variable {request : Request}

/-- A page with room is asked for again, for writing. -/
theorem proceed_of_room (hpool : pool.Coherent) (hfitted : pool.Fitted)
    (hpeek : pool.cache.peek? request.page = some ref)
    (hlayout : pool.layout? request.page.table = some layout)
    (hroom : ¬pool.Full layout request.page) (held : Bool) :
    Operation.proceed ⟨request, .insert insertion layout (.inspect index bound held)⟩ ref pool =
      .ok (.lock request.tx request.page .exclusive (.insert insertion layout .upgrade)) pool := by
  obtain ⟨free, hrun, hfree⟩ := exists_freeSlots_full hpool hfitted hpeek hlayout
  refine ends_iff_eq.1 (ends_proceed_iff.2 ⟨fun _ hfailed => (nomatch hrun.symm.trans hfailed),
    fun found hfound => ?_⟩)
  obtain rfl := Except.ok.inj (hrun.symm.trans hfound)
  rw [if_pos (hfree.2 hroom)]
  exact ⟨rfl, rfl⟩

/-- A full page is left under the locks from before it was asked for. -/
theorem proceed_of_full (insertion : Insertion) (index bound : Nat)
    (h : pool.Shows view (modes.grant request) first) (hfitted : pool.Fitted)
    (hshared : request.mode = .shared) (hpeek : pool.cache.peek? request.page = some ref)
    (hlayout : pool.layout? request.page.table = some layout)
    (hfull : pool.Full layout request.page) :
    ∃ after, after.Shows view modes first ∧ after.cache = pool.cache ∧
      Operation.proceed
          ⟨request, .insert insertion layout
            (.inspect index bound (modes request.tx request.page).isSome)⟩ ref pool =
        inspectFrom request.tx insertion layout (index + 1) bound after := by
  obtain ⟨free, hrun, hfree⟩ := exists_freeSlots_full h.coherent hfitted hpeek hlayout
  have hproceed : ∀ {held ok fails}, Ends (Operation.proceed
      ⟨request, .insert insertion layout (.inspect index bound held)⟩ ref) pool ok fails ↔
        if held then Ends (inspectFrom request.tx insertion layout (index + 1) bound) pool ok fails
        else Ends (releaseLock request.tx request.page) pool
          (fun _ middle =>
            Ends (inspectFrom request.tx insertion layout (index + 1) bound) middle ok fails)
          fails := by
    intro held ok fails
    have hnone : ¬0 < free := fun hpos => hfree.1 hpos hfull
    simp only [ends_proceed_iff, hrun, reduceCtorEq, false_implies, implies_true, true_and,
      Except.ok.injEq, forall_eq', if_neg hnone]
  cases hheld : modes request.tx request.page with
  | some mode =>
      have hkept : modes.grant request = modes := if_pos ⟨hshared, by rw [hheld]; rfl⟩
      exact ⟨pool, hkept ▸ h, rfl, eq_of_ends_iff fun _ _ => hproceed⟩
  | none =>
      have hnew : modes.grant request = modes.put request.tx request.page (some .shared) := by
        rw [LockModes.grant, if_neg (by simp [hheld]), hshared]
      rw [hnew] at h
      have hreader : modes.put request.tx request.page (some .shared) request.tx request.page ≠
          some .exclusive := by simp
      obtain ⟨released, after, hrelease, hafter, hcache⟩ := h.release hreader
      rw [LockModes.put_put, LockModes.put_eq_self hheld] at hafter
      refine ⟨after, hafter, hcache, eq_of_ends_iff fun ok fails => hproceed.trans ?_⟩
      rw [Option.isSome_none, if_neg Bool.false_ne_true, Ends, hrelease]

end Inspect

theorem inspectFrom_of_lt (h : pool.Shows view modes first) (hindex : index < bound) :
    inspectFrom tx insertion layout index bound pool =
      .ok (.lock tx (insertion.table.page index) .shared
        (.insert insertion layout
          (.inspect index bound (modes tx (insertion.table.page index)).isSome))) pool := by
  rw [← ends_iff_eq, ends_inspectFrom_iff, if_pos hindex, ← h.modes_eq]
  exact ⟨rfl, rfl⟩

/-- Behind the last page a new one is appended. -/
theorem inspectFrom_of_le (h : pool.Shows view modes first)
    (htable : view.table? insertion.table.id = some insertion.table)
    (hfile : (view.outline insertion.table.volume).isFile = true)
    (hcount : (view.outline insertion.table.volume).count view.pageSize = .ok bound)
    (hbound : bound < UInt32.size) :
    ∃ after, after.Shows (view.extended insertion.table) modes first ∧
      inspectFrom tx insertion layout bound bound pool =
        .ok (.lock tx (insertion.table.page bound) .exclusive (.insert insertion layout .append))
          after := by
  have hregistered : pool.Registered insertion.table := (h.table?_eq _).trans htable
  have hpages : (view.outline insertion.table.volume).pages = bound ∧ view.pageSize ≠ 0 := by
    unfold Volume.Outline.count at hcount
    split at hcount
    · cases hcount
    · next hsize => exact ⟨Except.ok.inj hcount, fun hzero => hsize ⟨hfile, hzero⟩⟩
  have hroom : (pool.volume insertion.table.volume).HasRoom pool.pageSize := by
    intro count hpageCount
    rw [h.pageCount_eq, hcount] at hpageCount
    exact Except.ok.inj hpageCount ▸ hbound
  have hallocates := (@ends_allocatePage pool h.coherent tx _ hregistered hroom).and
    (ends_allocatePage_appends h.coherent hregistered hroom)
  have hends : Ends (inspectFrom tx insertion layout bound bound) pool
      (fun step after => step = .lock tx (insertion.table.page bound) .exclusive
        (.insert insertion layout .append) ∧
        after.Shows (view.extended insertion.table) modes first)
      (fun _ _ => False) := by
    rw [ends_inspectFrom_iff, if_neg (Nat.lt_irrefl bound)]
    refine hallocates.mono ?_ ?_
    · rintro page after ⟨⟨_, hkept⟩, hpage, happends, hview, _⟩
      have hnext : page = insertion.table.page bound := by
        rw [hpage, h.view_eq, ← hpages.1]
        rfl
      have hbrowses : pool.Browses after := {
        toLodges := .of_eq happends.tables_eq happends.cache_eq happends.frames_eq
        ownedBy := hkept.evolves.ownedBy
        cached_eq := fun _ hcached => by
          simp only [standing, Pool.page, happends.cache_eq, happends.frames_eq] at hcached ⊢
          exact hcached
        stored_eq := fun {id} _ hstored => (hkept.evolves.moves id).stored_eq nofun hstored }
      refine ⟨by rw [hnext], hkept.evolves.coherent h.coherent, ?_, ?_, ?_,
        h.browses.trans hbrowses⟩
      · rw [hview, h.view_eq, happends.locks_eq]
        rfl
      · rw [happends.locks_eq, h.modes_eq]
      · rw [happends.locks_eq, h.policy_eq]
        rfl
    · rintro failure after ⟨_, _, _, hempty⟩
      rw [h.view_eq] at hempty
      exact absurd (h.pageSize_eq ▸ hempty hfile) hpages.2
  obtain ⟨_, after, hrun, rfl, hshows⟩ := hends.succeeds
  exact ⟨after, hshows, hrun⟩

end Stages

end PagePool
