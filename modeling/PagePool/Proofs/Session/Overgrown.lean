import PagePool.Proofs.Session.Capacity
import PagePool.Proofs.Session.Commuting
import PagePool.Proofs.Session.Placing
import PagePool.Proofs.Session.Register

/-!
# An insertion into a table of 2 ^ 32 full pages

Pages are numbered with 32 bits. An insertion that finds 2 ^ 32 full pages appends one, and is given
the number of the first page: the zeros of the new page go over that page in storage, whoever has
locked it, and what the cache has of it stays as it was. So storage and cache disagree on a page
that may be clean, which no later step repairs: a clean page is not written when its owner ends, and
not read again while it is there.
-/

namespace PagePool

open LockRecord Standing Pool

/-- The bytes that an end leaves of a page in the cache. -/
def Page.left (ending : Ending) (page : Page) : Bytes :=
  match ending with
  | .commit => page.data
  | .abort => page.beforeImage.getD page.data

theorem Standing.outcome_of_cached {standing : Standing} {ref : PageRef} {page : Page} {size : Nat}
    {ending : Ending} (h : standing.cached = some (ref, page)) :
    standing.outcome size ending = page.left ending := by
  cases ending with
  | commit => exact content_of_cached h
  | abort => exact base_of_cached h

namespace Pool

/-- A heap table of 2 ^ 32 full pages that nobody keeps a transaction from reading. -/
structure Overgrown (pool : Pool) (tx : TxId) (table : Table) (layout : Layout) (count : Nat) : Prop
    extends Paged pool table count where
  wraps : count = UInt32.size
  heap : table.kind = .heap layout
  full : ∀ index < count, pool.Full layout (table.page index)
  free : ∀ index < count, LockModes.Free pool.locks.table.mode? ⟨tx, table.page index, .shared⟩

/-- Zeros have gone over a page in storage, behind the cache. The cache shows what was shown before,
the locks are the same, and owners have the same objects. -/
structure Clears (before : Pool) (id : PageId) (after : Pool) : Prop where
  tables_eq : after.tables = before.tables
  zeros : after.stored? id = some (Bytes.zeros before.pageSize)
  stored_eq : ∀ {other data}, other ≠ id → before.stored? other = some data →
    after.stored? other = some data
  data_eq : ∀ {other ref page}, (after.standing other).cached = some (ref, page) →
    page.data = before.content other
  modes_eq : after.locks.table.mode? = before.locks.table.mode?
  cached_eq : ∀ {other owner entry}, OwnedBy (before.locks.table.records other) owner →
    (before.standing other).cached = some entry → (after.standing other).cached = some entry

/-- Zeros have gone over a page in storage, and pages have come into the cache before. If that page
is not in the cache, nothing can be seen but zeros on it. -/
structure Wipes (before : Pool) (id : PageId) (after : Pool) : Prop
    extends before.Clears id after where
  lodges : before.Lodges after
  sound : after.Sound
  coherent : after.cache.peek? id = none → after.Coherent
  pageSize_eq : after.pageSize = before.pageSize
  outline_eq : after.outline = before.outline

/-- A transaction has got a page for writing, and nobody has got another one so. The cache has
room. -/
structure Holds (pool : Pool) (tx : TxId) (id : PageId) (ref : PageRef) (page : Page) : Prop where
  readable : pool.Readable
  places : 1 < pool.cache.capacity
  locked : pool.locks.table.mode? tx id = some .exclusive
  alone : ∀ {other owner}, pool.locks.table.mode? owner other = some .exclusive → other = id
  cached_eq : (pool.standing id).cached = some (ref, page)

variable {pool before middle after first : Pool} {id : PageId} {ref : PageRef} {tx : TxId}
  {table : Table} {layout : Layout} {insertion : Insertion} {count : Nat} {locks : LockManager}

theorem Clears.congr (h : before.Clears id middle) (htables : after.tables = middle.tables)
    (hstored : ∀ other, after.stored? other = middle.stored? other)
    (hcached : ∀ other, (after.standing other).cached = (middle.standing other).cached)
    (hmodes : after.locks.table.mode? = middle.locks.table.mode?) : before.Clears id after where
  tables_eq := htables.trans h.tables_eq
  zeros := (hstored id).trans h.zeros
  stored_eq hne hdata := (hstored _).trans (h.stored_eq hne hdata)
  data_eq hentry := h.data_eq (hcached _ ▸ hentry)
  modes_eq := hmodes.trans h.modes_eq
  cached_eq howner hentry := (hcached _).trans (h.cached_eq howner hentry)

/-- Who waits for whom is left open. -/
theorem Wipes.of_table (h : before.Wipes id after) (htable : locks.table = after.locks.table) :
    before.Wipes id { after with locks } := by
  have hevolves : Evolves .access 0 after { after with locks } :=
    .locks_of_table h.sound locks htable
  exact {
    toClears := h.toClears.congr rfl (fun _ => rfl) (fun _ => rfl) (congrArg LockTable.mode? htable)
    lodges := h.lodges.trans (.of_eq rfl rfl rfl)
    sound := hevolves.sound
    coherent := fun habsent => hevolves.coherent (h.coherent habsent)
    pageSize_eq := h.pageSize_eq
    outline_eq := h.outline_eq }

/-- The number of the appended page is that of the first one. -/
theorem ends_allocatePage_overgrown (hsound : pool.Sound) (h : pool.Paged table count)
    (hwraps : count = UInt32.size) :
    Ends (allocatePage table) pool
      (fun page after => page = table.page 0 ∧
        pool.Deposits (table.page 0) (Bytes.zeros pool.pageSize) after)
      fun _ _ => False := by
  have hregistered : pool.table? (table.page 0).table = some table := h.registered
  have hreliable := hsound.reliable h.registered
  obtain ⟨old, hold⟩ := Option.isSome_iff_exists.1
    ((Volume.isSome_stored?_iff h.counted).2 (hwraps ▸ (by decide : 0 < UInt32.size)))
  have hlength : (Bytes.zeros pool.pageSize).length = pool.pageSize := List.length_replicate
  rw [ends_allocatePage_iff]
  unfold Volume.appendPage
  rw [ends_bind, ends_get, ends_bind, ends_lift, h.counted]
  have hindex : UInt32.ofNat count = 0 := by
    rw [hwraps]
    decide
  refine ⟨?_, nofun⟩
  rintro _ ⟨⟩
  rw [ends_bind, hindex]
  refine ((Volume.ends_writeAt hreliable hold hlength).and
    (Volume.ends_writeAt_outline hreliable hold hlength)).mono ?_ fun _ _ hfails => hfails.1
  rintro _ volume ⟨⟨hvolume, hdata⟩, houtline⟩
  exact ⟨rfl, hsound.setVolume hregistered hvolume, .setVolume hsound hregistered houtline, rfl,
    rfl, stored?_setVolume_page hsound hregistered hdata⟩

theorem Shows.clears (h : pool.Shows first.view first.locks.table.mode? first)
    (hdeposits : pool.Deposits id (Bytes.zeros pool.pageSize) after) : first.Clears id after where
  tables_eq := hdeposits.retains.tables_eq.trans h.tables_eq
  zeros := by
    rw [hdeposits.stored?_eq, if_pos rfl, h.pageSize_eq]
    rfl
  stored_eq hne hdata := by
    rw [hdeposits.stored?_eq, if_neg hne]
    exact h.browses.stored_eq hdata
  data_eq {other ref page} hcached := by
    have hcached' : (pool.standing other).cached = some (ref, page) := by
      rw [hdeposits.standing_eq] at hcached
      split at hcached
      · next hsame => exact hsame ▸ hcached
      · exact hcached
    have hcontent : pool.content = first.content := h.content_eq
    rw [← hcontent]
    exact (content_of_cached hcached').symm
  modes_eq := by
    rw [hdeposits.locks_eq]
    exact h.modes_eq
  cached_eq {other} _ _ howner hentry := by
    have hkept := h.browses.cached_eq howner hentry
    rw [hdeposits.standing_eq]
    split
    · next hsame => exact hsame ▸ hkept
    · exact hkept

theorem Shows.wipes (h : pool.Shows first.view first.locks.table.mode? first)
    (hdeposits : pool.Deposits id (Bytes.zeros pool.pageSize) after) : first.Wipes id after where
  toClears := h.clears hdeposits
  lodges := h.browses.toLodges.trans
    (.of_eq hdeposits.retains.tables_eq hdeposits.retains.cache_eq hdeposits.frames_eq)
  sound := hdeposits.sound
  coherent habsent := ⟨hdeposits.sound, fun other => by
    rw [hdeposits.standing_eq]
    split
    · next hsame =>
      subst hsame
      refine ⟨(h.coherent.coherent other).compatible, fun ref page hcached => ?_⟩
      rw [hdeposits.retains.cache_eq] at habsent
      exact nomatch (standing_cached_none habsent).symm.trans hcached
    · exact h.coherent.coherent other⟩
  pageSize_eq := hdeposits.retains.pageSize_eq.trans h.pageSize_eq
  outline_eq := (funext hdeposits.retains.outline_eq).trans h.outline_eq

/-- Behind 2 ^ 32 pages an insertion asks for the first one as if it were new. -/
theorem Shows.inspectFrom_overgrown (h : pool.Shows first.view first.locks.table.mode? first)
    (hpaged : first.Paged insertion.table count) (hwraps : count = UInt32.size) :
    ∃ after, inspectFrom tx insertion layout count count pool =
        .ok (.lock tx (insertion.table.page 0) .exclusive (.insert insertion layout .append))
          after ∧
      pool.Deposits (insertion.table.page 0) (Bytes.zeros pool.pageSize) after := by
  have hends : Ends (inspectFrom tx insertion layout count count) pool
      (fun step after => step = .lock tx (insertion.table.page 0) .exclusive
          (.insert insertion layout .append) ∧
        pool.Deposits (insertion.table.page 0) (Bytes.zeros pool.pageSize) after)
      fun _ _ => False := by
    rw [ends_inspectFrom_iff, if_neg (Nat.lt_irrefl _)]
    refine (ends_allocatePage_overgrown h.coherent.toSound (h.paged hpaged) hwraps).mono ?_
      fun _ _ => False.elim
    rintro _ after ⟨rfl, hdeposits⟩
    exact ⟨rfl, hdeposits⟩
  obtain ⟨_, after, hrun, rfl, hdeposits⟩ := hends.succeeds
  exact ⟨after, hrun, hdeposits⟩

/-- A page without a free slot takes no tuple. -/
theorem place_of_full (hlength : (pool.page ref).data.length = layout.pageSize)
    (hfull : ∀ slot < layout.slotCount, (layout.row? (pool.page ref) slot).isSome)
    (hwidth : insertion.tuple.width = layout.schema.fields) :
    insertion.place tx layout ref pool = .error (.error (.pageFull (pool.page ref).id)) pool := by
  rw [← ends_iff_eq_error, ends_place_iff, ends_onPage]
  refine (Layout.ends_insert_exact hlength).mono ?_ ?_
  · rintro _ page ⟨_, slot, hfirst, _⟩
    have hused := hfull slot hfirst.lt
    rw [hfirst.free] at hused
    cases hused
  · rintro failure _ ⟨rfl, ⟨hmisfit, _⟩ | ⟨_, _, rfl⟩⟩
    · exact absurd hwidth hmisfit
    · exact ⟨rfl, setPage_page pool ref⟩

end Pool

namespace Session

/-- An insertion has cleared the first page of its table in storage, and asks for it as for one that
it has appended. -/
structure Overwrites (before : Session) (id : Nat) (call : Call) (tx : TxId) (layout : Layout)
    (insertion : Insertion) (after : Session) : Prop where
  wipes : before.pool.Wipes (insertion.table.page 0) after.pool
  latest : after.pool.HasLatest insertion.table UInt32.size
  task : after.task? id = some
    { id, call, wait := .issued
      operation := ⟨⟨tx, insertion.table.page 0, .exclusive⟩, .insert insertion layout .append⟩ }
  timed : ∃ budget, Budget.start after.pool.locks.policy after.now = .ok budget
  log_eq : after.log = before.log

/-- An insertion has been refused the first page of its table, which storage has lost. -/
structure Refuses (before : Session) (id : Nat) (call : Call) (table : Table) (tuple : Tuple)
    (after : Session) : Prop where
  reachable : after.Reachable .strict
  idle : after.Idle call.tx
  clears : before.pool.Clears (table.page 0) after.pool
  log_eq : after.log =
    .call id call ⟨.error (.error (.pageFull (table.page 0))), some tuple⟩ :: before.log

/-- The transaction of such an insertion has ended, with nothing but its own write to put the page
right. -/
structure Lapses (before : Session) (id : Nat) (call : Call) (table : Table) (tuple : Tuple)
    (ending : Ending) (page : Page) (after : Session) : Prop where
  reachable : after.Reachable .strict
  log_eq : after.log = .command (.finish ending call.tx) (.ok .unit) ::
    .call id call ⟨.error (.error (.pageFull (table.page 0))), some tuple⟩ :: before.log
  tables_eq : after.pool.tables = before.pool.tables
  content_eq : after.pool.content (table.page 0) = page.left ending
  stored?_eq : after.pool.stored? (table.page 0) =
    some (if page.sent ending then page.left ending else Bytes.zeros before.pool.pageSize)

variable {session after : Session} {first : Pool} {id : Nat} {call : Call} {tx : TxId}
  {table : Table} {layout : Layout} {tuple : Tuple} {ref : PageRef} {page : Page} {count : Nat}

section Overgrown

variable (h : session.pool.Overgrown tx table layout count) (hpool : session.pool.Coherent)
  (hfitted : session.pool.Fitted) (hunused : session.task? id = none)
  (htimed : ∃ budget, Budget.start session.pool.locks.policy session.now = .ok budget)
  (hcall : call = .insertInto tx table tuple ∨ call = .insert tx table.id tuple)
include h hpool hfitted hunused htimed hcall

/-- **An insertion into a table of 2 ^ 32 full pages clears the first of them.** It looks at page
after page, and then writes zeros over the first one in storage, unless the cache has no room for
one of the pages. -/
theorem insertion_overwrites :
    (∃ evaluations,
      (session.run (.start id call :: List.replicate evaluations (.evaluate id))).RunsOut
        session.pool tuple id) ∨
      ∃ pooled, session.Overwrites id call tx layout { table, tuple, pooled }
        (session.run (.start id call :: List.replicate count (.evaluate id))) := by
  obtain ⟨pooled, htuple, hstart⟩ := start_insertion h.registered h.heap h.counted hcall
  have hlayout := Registered.layout?_eq h.registered h.heap
  obtain ⟨begun, rfl, hends⟩ := passes_from h.toPaged hfitted hlayout tuple id call pooled
    (Nat.le_refl _) h.full h.free htimed (.refl hpool) (.zero session.pool table)
    (Nat.zero_add count).symm
  simp only [run_cons, step_start hunused, htuple, hstart]
  rcases hends with hended | ⟨last, left, hnow, hlog, hleft, hlatest, hrun⟩
  · exact .inl hended
  obtain ⟨cleared, hinspect, hdeposits⟩ :=
    @Shows.inspectFrom_overgrown left session.pool tx layout { table, tuple, pooled } _ hleft
      h.toPaged h.wraps
  have hpolicy : cleared.locks.policy = session.pool.locks.policy :=
    (congrArg _ hdeposits.locks_eq).trans hleft.policy_eq
  rw [hrun, hinspect]
  refine .inr ⟨pooled, (hleft.wipes hdeposits).of_table rfl, ?_, ?_, ?_, ?_⟩
  · rw [← h.wraps, HasLatest]
    change ∀ last, _ → (cleared.cache.peek? _).isSome
    rwa [hdeposits.retains.cache_eq]
  · rw [task?_deliver]
    exact congrArg (Option.map (notifyTask _)) (task?_suspend ..)
  · rw [← hnow, ← hpolicy] at htimed
    exact htimed
  · exact hlog

end Overgrown

section Asked

variable {insertion : Insertion} (h : session.Overwrites id call tx layout insertion after)
  (hpool : session.pool.Coherent) (hfitted : session.pool.Fitted)
  (hovergrown : session.pool.Overgrown tx insertion.table layout count)
  (hfree : LockModes.Free session.pool.locks.table.mode? ⟨tx, insertion.table.page 0, .exclusive⟩)
  (hwidth : insertion.tuple.width = layout.schema.fields)
include h hpool hfitted hovergrown hfree hwidth

/-- An object of the first page is as full as before, and takes no tuple. -/
theorem Overwrites.step_of_resident
    (hpeek : after.pool.cache.peek? (insertion.table.page 0) = some ref) :
    let request : Request := ⟨tx, insertion.table.page 0, .exclusive⟩
    let locks := (after.pool.locks.enter tx).grant request
    let pool : Pool :=
      { after.pool with locks, cache := after.pool.cache.promote request.page ref }
    after.step (.evaluate id) = ((after.withLocks locks).after id call (some insertion.tuple)
      (.error (.error (.pageFull (insertion.table.page 0))) pool)).deliver := by
  intro request locks pool
  have hlayout : session.pool.layout? (insertion.table.page 0).table = some layout :=
    hovergrown.registered.layout?_eq hovergrown.heap
  have hdata := h.wipes.data_eq (standing_cached hpeek)
  have hlength : (after.pool.page ref).data.length = layout.pageSize := by
    rw [hdata, hpool.length_content, hfitted.pageSize_eq hlayout]
  have hrows : ∀ slot < layout.slotCount, (layout.row? (after.pool.page ref) slot).isSome := by
    intro slot hslot
    have hfull := hovergrown.full 0 (hovergrown.wraps ▸ (by decide : 0 < UInt32.size)) slot hslot
    simp only [shownRows, rowsOf, hlayout, Option.bind_some] at hfull
    have hload : (after.pool.page ref).data = (Page.load (insertion.table.page 0)
      (session.pool.content (insertion.table.page 0))).data := hdata
    rwa [Layout.row?_congr hload]
  let task : Task := { id, call, wait := .issued
                       operation := ⟨request, .insert insertion layout .append⟩ }
  have hplace : task.operation.proceed ref pool =
      .error (.error (.pageFull (insertion.table.page 0))) pool := by
    rw [← h.wipes.sound.named hpeek]
    exact @place_of_full pool _ _ _ _ hlength hrows hwidth
  obtain ⟨budget, hbudget⟩ := h.timed
  have hblockers : after.pool.locks.table.blockers request = [] :=
    LockTable.free_iff.1 (h.wipes.modes_eq ▸ hfree)
  have hgoal : task.operation.goal ≠ .lock := by
    intro hlock
    cases hlock
  rw [step_evaluate h.task rfl, @evaluate_of_free after task _ hbudget hblockers,
    @granted_of_resident (after.withLocks locks) task ref hgoal hpeek]
  exact congrArg (fun result => ((after.withLocks locks).resume task result).deliver) hplace

omit hpool in
/-- If the first page has left the cache, it comes back as a page of zeros, and takes the tuple. -/
theorem Overwrites.places (habsent : after.pool.cache.peek? (insertion.table.page 0) = none)
    (hslots : 0 < layout.slotCount) (hreadable : session.pool.Readable)
    (hplaces : 0 < session.pool.cache.capacity)
    (hreaders : ∀ owner other, session.pool.locks.table.mode? owner other ≠ some .exclusive) :
    (after.step (.evaluate id)).log =
      .call id call ⟨.ok .unit,
        some { insertion.tuple with rid := some ⟨insertion.table.page 0, 0⟩ }⟩ :: session.log := by
  have hpos : 0 < count := hovergrown.wraps ▸ (by decide : 0 < UInt32.size)
  have hpaged : after.pool.Paged insertion.table count :=
    hovergrown.toPaged.congr h.wipes.tables_eq h.wipes.pageSize_eq h.wipes.outline_eq
  have hfitted' : after.pool.Fitted := hfitted.congr h.wipes.tables_eq h.wipes.pageSize_eq
  have hlayout := hpaged.registered.layout?_eq hovergrown.heap
  have hfirst : after.pool.FirstFree layout ⟨insertion.table.page 0, 0⟩ := by
    refine firstFree_of_zeros hfitted' hlayout hslots ?_
    rw [Pool.content, content_of_absent (standing_cached_none habsent)]
    exact (congrArg (Option.getD · _) h.wipes.zeros).trans (by rw [h.wipes.pageSize_eq]; rfl)
  rw [← h.wipes.modes_eq] at hfree hreaders
  have hasks : after.Asks id call after.pool.view after.pool.locks.table.mode? after.pool
      ⟨⟨tx, insertion.table.page 0, .exclusive⟩, .insert insertion layout .append⟩ :=
    ⟨.refl (h.wipes.coherent habsent), h.task, h.timed⟩
  have hgoal : Goal.insert insertion layout .append ≠ .lock := by
    intro hlock
    cases hlock
  rcases hasks.evaluate hgoal hfree (hpaged.has hpos) hpaged.isGated_eq with
    ⟨resident, middle, _, hmiddle, hout, _⟩ | ⟨ref, pool, hshows, hpeek, hstep⟩
  · obtain ⟨other, owner, hwriter, hne, _⟩ := hmiddle.crowded hout
      (h.wipes.lodges.readable hreadable) (h.wipes.lodges.capacity_eq ▸ hplaces : [].length < _)
    rw [LockModes.grant_exclusive, LockModes.put_of_page_ne _ hne] at hwriter
    exact absurd hwriter (hreaders owner other)
  · rw [LockModes.grant_exclusive] at hshows
    have hcount : (after.pool.view.outline insertion.table.volume).count
        after.pool.view.pageSize = .ok (max count 1) := by
      rw [Nat.max_eq_left hpos]
      exact hpaged.count_eq
    obtain ⟨done, hproceed, _⟩ := placed_of_shows insertion rfl rfl rfl hfitted' hlayout hwidth
      (rfl : Placement.append.mode = .exclusive) hshows hpeek hfirst hcount rfl
    rw [hstep, hproceed]
    exact congrArg (_ :: ·) h.log_eq

end Asked

section Held

variable {insertion : Insertion} (hpool : session.pool.Coherent) (hfitted : session.pool.Fitted)
  (hovergrown : session.pool.Overgrown tx insertion.table layout count)
  (hholds : session.pool.Holds tx (insertion.table.page 0) ref page)
  (hwidth : insertion.tuple.width = layout.schema.fields)
include hpool hfitted hovergrown hholds hwidth

/-- The owner's object of the first page is still there. -/
theorem Overwrites.refuses (h : session.Overwrites id call tx layout insertion after)
    (hreachable : after.Reachable .strict) :
    session.Refuses id call insertion.table insertion.tuple (after.step (.evaluate id)) := by
  let request : Request := ⟨tx, insertion.table.page 0, .exclusive⟩
  have howner := LockTable.mode?_eq_exclusive_iff.1 hholds.locked
  have hfree : LockModes.Free session.pool.locks.table.mode? request :=
    LockTable.free_iff.2 <|
      LockTable.blockers_of_ownedBy (fun id => (hpool.coherent id).compatible) howner
  obtain ⟨hpeek, _⟩ :=
    standing_cached_iff.1 (h.wipes.cached_eq howner hholds.cached_eq)
  have hrun := h.step_of_resident hpool hfitted hovergrown hfree hwidth hpeek
  have hnext : (after.step (.evaluate id)).Reachable .strict := hreachable.step trivial
  rw [hrun] at hnext ⊢
  refine ⟨hnext, ?_, h.wipes.toClears.congr rfl (fun _ => rfl) (fun other => ?_) ?_, ?_⟩
  · intro left hmem htx
    obtain ⟨old, hold, rfl⟩ := List.mem_map.1 hmem
    obtain ⟨hold, hapart⟩ := List.mem_filter.1 hold
    rw [(notifyTask_same _ old).2.1] at htx
    refine of_decide_eq_true hapart ?_
    exact hreachable.tidy.one_each nofun old hold _ (task?_mem h.task).1 htx
  · exact congrArg (Option.map _) (Cache.samePages_promote hpeek other)
  · change (after.pool.locks.table.grant request).mode? = _
    rw [LockTable.mode?_grant (LockTable.free_iff.1 (h.wipes.modes_eq ▸ hfree)),
      LockModes.grant_exclusive, LockModes.put_eq_self]
    rw [h.wipes.modes_eq]
    exact hholds.locked
  · exact congrArg _ h.log_eq

end Held

section Ended

variable (hpool : session.pool.Coherent) (hfitted : session.pool.Fitted)
  (hovergrown : session.pool.Overgrown tx table layout count)
  (hholds : session.pool.Holds tx (table.page 0) ref page)

include hpool hfitted hovergrown hholds in
/-- **An insertion into a table of 2 ^ 32 full pages fails, and clears the first page.** A
transaction that has got the first page for writing is told that this page is full. Storage has
zeros there, and the cache does not. -/
theorem insertion_refused (hunused : session.task? id = none)
    (htimed : ∃ budget, Budget.start session.pool.locks.policy session.now = .ok budget)
    (hcall : call = .insertInto tx table tuple ∨ call = .insert tx table.id tuple)
    (hwidth : tuple.width = layout.schema.fields) (hreachable : session.Reachable .strict)
    (hidle : session.Idle tx) :
    session.Refuses id call table tuple
      (session.run (.start id call :: List.replicate (count + 1) (.evaluate id))) := by
  rcases insertion_overwrites hovergrown hpool hfitted hunused htimed hcall with
    ⟨evaluations, hended⟩ | ⟨pooled, hwrites⟩
  · obtain ⟨other, owner, hwriter, hne⟩ :=
      hended.crowded hholds.readable [table.page 0] hholds.places
    exact absurd (List.mem_singleton.2 (hholds.alone hwriter)) hne
  · rw [List.replicate_succ', ← List.cons_append, run_append]
    refine hwrites.refuses hpool hfitted hovergrown hholds hwidth ?_
    refine Reachable.evaluates (hreachable.step ?_) id count
    rcases hcall with rfl | rfl
    · exact ⟨hidle, hovergrown.registered⟩
    · exact ⟨hidle, trivial⟩

include hholds in
/-- Only an end that writes the page puts it right. -/
theorem Refuses.finish (h : session.Refuses id call table tuple after) (hcall : call.tx = tx)
    (hapart : (session.pool.tables.map Table.volume).Nodup) (ending : Ending) :
    session.Lapses id call table tuple ending page (after.step (.command (.finish ending tx))) := by
  have howner := LockTable.mode?_eq_exclusive_iff.1 hholds.locked
  have hcached := h.clears.cached_eq howner hholds.cached_eq
  have howner' : OwnedBy (after.pool.locks.table.records (table.page 0)) tx := by
    rw [← LockTable.mode?_eq_exclusive_iff, h.clears.modes_eq]
    exact hholds.locked
  obtain ⟨closed, hcloses, hstep⟩ :=
    h.reachable.tidy.closes (h.clears.tables_eq ▸ hapart) ending tx
  have hstanding := hcloses.held_eq (table.page 0) howner'.heldBy
  rw [conclude_of_cached hcached, outcome_of_cached hcached] at hstanding
  have hnext : (after.step (.command (.finish ending tx))).Reachable .strict :=
    h.reachable.step (hcall ▸ h.idle)
  rw [hstep] at hnext ⊢
  refine ⟨hnext, ?_, hcloses.retains.tables_eq.trans h.clears.tables_eq, ?_, ?_⟩
  · rw [hcall, h.log_eq]
  · have hended : (closed.standing (table.page 0)).cached =
        some (ref, Page.load (table.page 0) (page.left ending)) :=
      congrArg Standing.cached hstanding
    exact content_of_cached hended
  · have hended : closed.stored? (table.page 0) =
        if page.sent ending then some (page.left ending) else after.pool.stored? (table.page 0) :=
      congrArg Standing.stored hstanding
    rw [h.clears.zeros] at hended
    exact hended.trans (apply_ite some ..).symm

end Ended

end Session

/-! ## One page too many

In a table of 2 ^ 32 full pages a transaction gets the first page, and then inserts a tuple. What it
does with that page before decides how it can be seen that storage has lost the page, and so does the
number of places in the cache. -/

/-- A file of 2 ^ 32 pages, with the same tuple on each. -/
def File.replete : File where
  length := 5 * UInt32.size
  byte i := if 5 * UInt32.size ≤ i then 0 else [128, 7].getD (i % 5) 0
  byte_eq_zero _ hbehind := if_pos hbehind

/-- A file with the pages of the replete one, but for the first. -/
structure File.Replete (file : File) : Prop where
  length_eq : file.length = 5 * UInt32.size
  byte_eq : ∀ i, 5 ≤ i → file.byte i = File.replete.byte i

theorem File.replete_replete : File.replete.Replete :=
  ⟨rfl, fun _ _ => rfl⟩

theorem File.Replete.write {file : File} (h : file.Replete) {bytes : Bytes}
    (hlength : bytes.length = 5) : (file.write 0 bytes).Replete where
  length_eq := by
    rw [Volume.length_write file 0 (List.ne_nil_of_length_pos (hlength ▸ Nat.succ_pos 4)),
      h.length_eq, hlength]
    rfl
  byte_eq i hi := by
    rw [byte_write, if_neg (by omega), h.byte_eq i hi]

namespace Pool

def replete : Pool :=
  { narrow with volumes := [.ofMedium (.file .replete)] }

theorem replete_ready : replete.Ready where
  empty := rfl
  unlocked _ := rfl
  backed := by decide
  reliable := by
    intro table hmem
    obtain rfl := List.mem_singleton.1 hmem
    exact Volume.reliable_ofFile .replete
  apart := by decide
  strict := by
    intro table hmem
    obtain rfl := List.mem_singleton.1 hmem
    simp [Table.narrow]

/-- The narrow table, and a cache with nothing but the first page. One transaction has locked that
page, and there is no other lock. -/
def Keeps (pool : Pool) (capacity : Nat) (mode : LockMode) (page : Page) : Prop :=
  pool.tables = [.narrow] ∧ pool.pageSize = 5 ∧ (pool.volume 0).gateClosed = false ∧
    pool.cache.capacity = capacity ∧ pool.cache.entries = [(⟨0, 0⟩, 0)] ∧
    pool.frames.cells = [⟨page, .free⟩] ∧
    pool.locks.table.pages.entries = [(⟨0, 0⟩, [⟨1, mode, ⟨0, 0⟩⟩])]

instance (pool : Pool) (capacity : Nat) (mode : LockMode) (page : Page) :
    Decidable (pool.Keeps capacity mode page) :=
  inferInstanceAs (Decidable (_ ∧ _))

/-- One transaction has got the first page of the narrow table, and nobody has got another page.
That page has a tuple, and so has every other one in the file. -/
structure Laden (pool : Pool) (capacity : Nat) (mode : LockMode) (file : File) (page : Page) :
    Prop where
  medium_eq : (pool.volume 0).medium = .file file
  replete : file.Replete
  keeps : pool.Keeps capacity mode page
  data_eq : ∃ cell, page.data = [128, cell, 0, 0, 0]

namespace Laden

variable {pool : Pool} {capacity : Nat} {mode : LockMode} {file : File} {page : Page}
  (h : pool.Laden capacity mode file page)
include h

theorem records_eq (id : PageId) :
    pool.locks.table.records id = if id = ⟨0, 0⟩ then [⟨1, mode, ⟨0, 0⟩⟩] else [] := by
  unfold LockTable.records Multimap.values
  obtain ⟨_, _, _, _, _, _, hlocks⟩ := h.keeps
  rw [hlocks]
  by_cases hid : id = ⟨0, 0⟩
  · subst hid
    rfl
  · rw [if_neg hid, List.find?_cons_of_neg (by simpa using Ne.symm hid)]
    rfl

theorem standing_cached_eq : (pool.standing ⟨0, 0⟩).cached = some (0, page) := by
  obtain ⟨_, _, _, _, hentries, hframes, _⟩ := h.keeps
  refine standing_cached_iff.2 ⟨?_, ?_⟩
  · rw [Cache.peek?, hentries]
    rfl
  · rw [Pool.page, Frames.page, Frames.frame, hframes]
    rfl

theorem readable : pool.Readable := by
  obtain ⟨_, _, _, _, _, hframes, _⟩ := h.keeps
  intro ref
  rw [Frames.frame, hframes]
  cases ref with
  | zero => rfl
  | succ ref => rfl

/-- Nobody is in the way of the transaction. -/
theorem free (id : PageId) (wanted : LockMode) :
    LockModes.Free pool.locks.table.mode? ⟨1, id, wanted⟩ := by
  rw [LockTable.free_iff, LockTable.blockers_eq_nil_iff, h.records_eq]
  intro record hmem hne
  split at hmem
  · exact absurd (congrArg LockRecord.tx (List.mem_singleton.1 hmem)) hne
  · cases hmem

theorem writer_iff {owner : TxId} {id : PageId} :
    pool.locks.table.mode? owner id = some .exclusive ↔
      owner = 1 ∧ id = ⟨0, 0⟩ ∧ mode = .exclusive := by
  rw [LockTable.mode?_eq_exclusive_iff, h.records_eq]
  constructor
  · rintro ⟨record, hmem, rfl, hmode⟩
    split at hmem
    · next hid =>
      obtain rfl := List.mem_singleton.1 hmem
      exact ⟨rfl, hid, hmode⟩
    · cases hmem
  · rintro ⟨rfl, rfl, rfl⟩
    exact ⟨_, List.mem_singleton.2 rfl, rfl, rfl⟩

theorem fits (hcapacity : 0 < capacity) : pool.cache.Fits := by
  obtain ⟨_, _, _, hplaces, hentries, _⟩ := h.keeps
  rw [Cache.Fits, hplaces, hentries]
  exact hcapacity

theorem tables_eq : pool.tables = [.narrow] :=
  h.keeps.1

theorem pageSize_eq : pool.pageSize = 5 :=
  h.keeps.2.1

theorem registered : pool.Registered .narrow := by
  rw [Registered, table?, h.tables_eq]
  rfl

theorem zeros_eq : Bytes.zeros pool.pageSize = [0, 0, 0, 0, 0] := by
  rw [h.pageSize_eq]
  rfl

theorem counted : (pool.volume 0).pageCount pool.pageSize = .ok UInt32.size := by
  rw [Volume.pageCount, h.medium_eq, h.pageSize_eq]
  change Except.ok (file.length / 5) = _
  rw [h.replete.length_eq]
  rfl

theorem stored?_eq {index : Nat} (hindex : index < UInt32.size) (hpos : 0 < index) :
    pool.stored? (Table.narrow.page index) = some [128, 7, 0, 0, 0] := by
  have hregistered : pool.table? (Table.narrow.page index).table = some .narrow := h.registered
  have hnumber : (Table.narrow.page index).index.toNat = index := UInt32.toNat_ofNat_of_lt' hindex
  have hbyte : ∀ i < 5, file.byte (index * 5 + i) = [128, 7].getD i 0 := fun i hi => by
    rw [h.replete.byte_eq _ (by omega)]
    refine (if_neg (by omega)).trans (congrArg (List.getD _ · 0) ?_)
    rw [Nat.mul_add_mod', Nat.mod_eq_of_lt hi]
  have hread : file.read (index * 5) 5 = [128, 7, 0, 0, 0] :=
    List.map_congr_left fun i hi => hbyte i (List.mem_range.1 hi)
  have hvolume : (pool.volume 0).stored? 5 index =
      if index < file.length / 5 then some (file.read (index * 5) 5) else none := by
    rw [Volume.stored?, h.medium_eq]
  rw [stored?, hregistered, Option.bind_some, hnumber, h.pageSize_eq]
  refine hvolume.trans ?_
  rw [h.replete.length_eq, if_pos (by omega), hread]

theorem peek?_eq_none {index : Nat} (hindex : index < UInt32.size) (hpos : 0 < index) :
    pool.cache.peek? (Table.narrow.page index) = none := by
  obtain ⟨_, _, _, _, hentries, _⟩ := h.keeps
  have hne : ⟨0, 0⟩ ≠ Table.narrow.page index := fun hsame => by
    have hnumber : (Table.narrow.page index).index.toNat = index :=
      UInt32.toNat_ofNat_of_lt' hindex
    rw [← hsame] at hnumber
    exact Nat.ne_of_lt hpos hnumber
  rw [Cache.peek?, hentries, List.find?_cons_of_neg (by simpa using hne)]
  rfl

theorem content_eq {index : Nat} (hindex : index < UInt32.size) :
    ∃ cell, pool.content (Table.narrow.page index) = [128, cell, 0, 0, 0] := by
  obtain rfl | hpos := Nat.eq_zero_or_pos index
  · obtain ⟨cell, hdata⟩ := h.data_eq
    exact ⟨cell, (content_of_cached h.standing_cached_eq).trans hdata⟩
  · have habsent := standing_cached_none (h.peek?_eq_none hindex hpos)
    refine ⟨7, (content_of_absent habsent).trans ?_⟩
    exact congrArg (Option.getD · _) (h.stored?_eq hindex hpos)

theorem overgrown :
    pool.Overgrown 1 .narrow { schema := { fields := 1 }, pageSize := 5 } UInt32.size where
  registered := h.registered
  isFile := by
    simp only [Table.narrow, outline, Volume.outline, h.medium_eq]
  ungated := h.keeps.2.2.1
  counted := h.counted
  limited := Nat.le_refl _
  wraps := rfl
  heap := rfl
  full index hindex slot hslot := by
    obtain rfl := Nat.lt_one_iff.1 hslot
    have hlayout : pool.layout? (Table.narrow.page index).table =
        some { schema := { fields := 1 }, pageSize := 5 } := Registered.layout?_eq h.registered rfl
    obtain ⟨cell, hcontent⟩ := h.content_eq hindex
    simp only [shownRows, rowsOf, hlayout, Option.bind_some, hcontent]
    rfl
  free index _ := h.free _ _

/-- There are no more pages than numbers for them. -/
theorem ample (hcapacity : UInt32.size < capacity) : pool.Ample := by
  intro pages hnodup htables
  have htable : ∀ id ∈ pages, Table.narrow.id = id.table := fun id hmem => by
    have hfound := htables id hmem
    rw [table?, h.tables_eq] at hfound
    simpa using hfound
  have hnumbers : (pages.map (·.index.toNat)).Nodup := by
    refine List.Nodup.map_on (fun id hid other hother hnumber => ?_) hnodup
    have hindex : id.index = other.index := UInt32.toNat_inj.1 hnumber
    have hsame : id.table = other.table := (htable id hid).symm.trans (htable other hother)
    obtain ⟨_, _⟩ := id
    obtain ⟨_, _⟩ := other
    exact congrArg₂ PageId.mk hsame hindex
  have hrange : pages.map (·.index.toNat) ⊆ List.range UInt32.size := fun number hmem => by
    obtain ⟨id, _, rfl⟩ := List.mem_map.1 hmem
    exact List.mem_range.2 id.index.toNat_lt
  have hlength := (List.Nodup.subperm hnumbers hrange).length_le
  rw [List.length_map, List.length_range] at hlength
  rw [h.keeps.2.2.2.1]
  exact Nat.lt_of_le_of_lt hlength hcapacity

end Laden

/-- With two places in the cache nothing is in the way of a writer of the first page. -/
theorem Laden.holds {pool : Pool} {file : File} {page : Page}
    (h : pool.Laden 2 .exclusive file page) : pool.Holds 1 ⟨0, 0⟩ 0 page where
  readable := h.readable
  places := h.keeps.2.2.2.1 ▸ Nat.lt_succ_self 1
  locked := h.writer_iff.2 ⟨rfl, rfl, rfl⟩
  alone hwriter := (h.writer_iff.1 hwriter).2.1
  cached_eq := h.standing_cached_eq

theorem storedRows_of_zeros {pool : Pool} (htables : pool.tables = [.narrow])
    (hstored : pool.stored? ⟨0, 0⟩ = some [0, 0, 0, 0, 0]) :
    pool.storedRows ⟨⟨0, 0⟩, 0⟩ = none := by
  rw [storedRows, layout?, table?, htables, hstored]
  rfl

end Pool

namespace Session

/-- A transaction gets the first page for writing. -/
def holding : List Event :=
  [.start 0 (.get 1 ⟨0, 0⟩ .exclusive), .evaluate 0]

/-- The transaction writes that page. -/
def scribbling : List Event :=
  holding ++ [.command (.write 0 1 1 [9])]

/-- The transaction gets the first page for a deletion from a slot that there is not. -/
def misdeleting : List Event :=
  [.start 0 (.delete 1 ⟨[7], some ⟨⟨0, 0⟩, 1⟩⟩), .evaluate 0]

/-- The transaction inserts a tuple, through the pool or through the table. -/
def inserting (call : Call) (evaluations : Nat) : List Event :=
  .start 9 call :: List.replicate evaluations (.evaluate 9)

/-- No call is under way, and the clock can tell deadlines. -/
structure Laden (session : Session) (capacity : Nat) (mode : LockMode) (file : File)
    (page : Page) : Prop where
  pool : session.pool.Laden capacity mode file page
  quiet : session.tasks = []
  timed : ∃ budget, Budget.start session.pool.locks.policy session.now = .ok budget

section Refused

variable {events : List Event} {file : File} {page : Page} {count : Nat} {call : Call}
  (h : (ofPool .replete 0).Follows events)
  (hladen : ((ofPool .replete 0).run events).Laden 2 .exclusive file page)
  (hcount : count = UInt32.size)
  (hcall : call = .insertInto 1 .narrow (.ofCells [8]) ∨ call = .insert 1 0 (.ofCells [8]))
include h hladen hcount hcall

theorem refuses_of_laden :
    ((ofPool .replete 0).run events).Refuses 9 call .narrow (.ofCells [8])
      ((ofPool .replete 0).run (events ++ inserting call (count + 1))) := by
  have hsound := h.sound replete_ready
  have hfitted := h.fitted (.ofPool replete_ready 0) (by decide)
  have hreachable := h.reachable replete_ready .strict
  rw [run_append]
  generalize (ofPool .replete 0).run events = session at *
  have hovergrown := hladen.pool.overgrown
  rw [← hcount] at hovergrown
  refine insertion_refused hsound.coherent hfitted hovergrown hladen.pool.holds ?_ hladen.timed
    hcall rfl hreachable ?_
  · rw [task?, hladen.quiet]
    rfl
  · rw [Idle, hladen.quiet]
    exact List.forall_mem_nil _

theorem lapses_of_laden (ending : Ending) :
    ((ofPool .replete 0).run events).Lapses 9 call .narrow (.ofCells [8]) ending page
      ((ofPool .replete 0).run
        (events ++ inserting call (count + 1) ++ [.command (.finish ending 1)])) := by
  have htx : call.tx = 1 := by rcases hcall with rfl | rfl <;> rfl
  rw [run_append]
  refine (refuses_of_laden h hladen hcount hcall).finish hladen.pool.holds htx ?_ ending
  rw [hladen.pool.tables_eq]
  exact List.nodup_singleton _

end Refused

theorem laden_holding : ((ofPool .replete 0).run holding).Laden 2 .exclusive .replete
    (Page.load ⟨0, 0⟩ [128, 7, 0, 0, 0]) where
  pool := ⟨by cbv, File.replete_replete, by decide_cbv, 7, rfl⟩
  quiet := by decide_cbv
  timed := ⟨_, by cbv⟩

theorem laden_scribbling : ((ofPool .replete 0).run scribbling).Laden 2 .exclusive .replete
    { id := ⟨0, 0⟩, data := [128, 9, 0, 0, 0], dirty := some 1
      beforeImage := some [128, 7, 0, 0, 0], stolen := false } where
  pool := ⟨by cbv, File.replete_replete, by decide_cbv, 9, rfl⟩
  quiet := by decide_cbv
  timed := ⟨_, by cbv⟩

theorem laden_flushing :
    ((ofPool .replete 0).run (scribbling ++ [.command .flushAll])).Laden 2 .exclusive
      (File.replete.write 0 [128, 9, 0, 0, 0])
      { id := ⟨0, 0⟩, data := [128, 9, 0, 0, 0], dirty := none
        beforeImage := some [128, 7, 0, 0, 0], stolen := true } where
  pool := ⟨by rfl, File.replete_replete.write rfl, by decide_cbv, 9, rfl⟩
  quiet := by decide_cbv
  timed := ⟨_, by cbv⟩

theorem laden_misdeleting : ((ofPool .replete 0).run misdeleting).Laden 2 .exclusive .replete
    (Page.load ⟨0, 0⟩ [128, 7, 0, 0, 0]) where
  pool := ⟨by cbv, File.replete_replete, by decide_cbv, 7, rfl⟩
  quiet := by decide_cbv
  timed := ⟨_, by cbv⟩

/-- The transaction reads the first page. -/
def reading : List Event :=
  [.start 0 (.get 1 ⟨0, 0⟩ .shared), .evaluate 0]

section Resized

variable {capacity count : Nat} (hcapacity : capacity = 1 ∨ capacity = UInt32.size + 1)
include hcapacity

theorem laden_reading : ((ofPool (Pool.replete.resized capacity) 0).run reading).Laden capacity
    .shared .replete (Page.load ⟨0, 0⟩ [128, 7, 0, 0, 0]) := by
  rcases hcapacity with rfl | rfl
  · exact ⟨⟨by cbv, File.replete_replete, by decide_cbv, 7, rfl⟩, by decide_cbv, _, by cbv⟩
  · exact ⟨⟨by cbv, File.replete_replete, by decide_cbv, 7, rfl⟩, by decide_cbv, _, by cbv⟩

theorem follows_reading : (ofPool (Pool.replete.resized capacity) 0).Follows reading := by
  rcases hcapacity with rfl | rfl
  · decide_cbv
  · decide_cbv

theorem reachable_reading (evaluations : Nat) :
    ((ofPool (Pool.replete.resized capacity) 0).run
      (reading ++ inserting (.insert 1 0 (.ofCells [8])) evaluations)).Reachable .strict := by
  have hreachable := (follows_reading hcapacity).reachable (replete_ready.resized capacity) .strict
  have hquiet := (laden_reading hcapacity).quiet
  rw [run_append]
  generalize (ofPool (Pool.replete.resized capacity) 0).run reading = session at *
  refine Reachable.evaluates (hreachable.step ?_) 9 evaluations
  refine ⟨?_, trivial⟩
  rw [Idle, hquiet]
  exact List.forall_mem_nil _

/-- The insertion of a reader clears the first page, unless it runs out of room for others. -/
theorem overwrites_reading (hcount : count = UInt32.size) :
    let session := (ofPool (Pool.replete.resized capacity) 0).run reading
    let call : Call := .insert 1 0 (.ofCells [8])
    session.pool.Coherent ∧ session.pool.Fitted ∧
      session.pool.Overgrown 1 .narrow { schema := { fields := 1 }, pageSize := 5 } count ∧
        ∃ pooled, session.Overwrites 9 call 1 { schema := { fields := 1 }, pageSize := 5 }
          { table := .narrow, tuple := .ofCells [8], pooled }
          (session.run (.start 9 call :: List.replicate count (.evaluate 9))) := by
  intro session call
  have hladen := laden_reading hcapacity
  have hready := replete_ready.resized capacity
  have hfollows := follows_reading hcapacity
  have hsound := hfollows.sound hready
  have hfitted := hfollows.fitted (.ofPool hready 0) (by decide : Pool.replete.Fitted)
  have hovergrown := hladen.pool.overgrown
  rw [← hcount] at hovergrown
  refine ⟨hsound.coherent, hfitted, hovergrown, ?_⟩
  have hunused : session.task? 9 = none := by
    rw [task?, hladen.quiet]
    rfl
  refine (insertion_overwrites hovergrown hsound.coherent hfitted hunused hladen.timed
    (.inr rfl)).resolve_left ?_
  rintro ⟨_, hended⟩
  have hplaces : 0 < session.pool.cache.capacity := by
    rw [hladen.pool.keeps.2.2.2.1]
    rcases hcapacity with rfl | rfl <;> exact Nat.succ_pos _
  obtain ⟨other, owner, hwriter, _⟩ := hended.crowded hladen.pool.readable [] hplaces
  obtain ⟨_, _, hmode⟩ := hladen.pool.writer_iff.1 hwriter
  cases hmode

end Resized

/-- A cache with one place has lost the first page when a tuple is put there. -/
theorem inserted_reading {count : Nat} (hcount : count = UInt32.size) :
    let session := (ofPool (Pool.replete.resized 1) 0).run reading
    let call : Call := .insert 1 0 (.ofCells [8])
    (session.run (inserting call (count + 1))).log =
      .call 9 call ⟨.ok .unit, some { Tuple.ofCells [8] with rid := some ⟨⟨0, 0⟩, 0⟩ }⟩ ::
        session.log := by
  intro session call
  have hladen := laden_reading (.inl rfl)
  obtain ⟨_, hfitted, hovergrown, pooled, hwrites⟩ := overwrites_reading (.inl rfl) hcount
  have hfits := hwrites.wipes.lodges.fits (hladen.pool.fits Nat.one_pos)
  have hplaces := hwrites.wipes.lodges.capacity_eq.trans hladen.pool.keeps.2.2.2.1
  have habsent := hfits.eq_none hplaces (hwrites.latest (UInt32.size - 1) rfl)
    (by decide : (⟨0, 0⟩ : PageId) ≠ Table.narrow.page (UInt32.size - 1))
  rw [inserting, List.replicate_succ', ← List.cons_append, run_append]
  refine hwrites.places hfitted hovergrown (hladen.pool.free _ _) rfl habsent (by decide)
    hladen.pool.readable (hladen.pool.keeps.2.2.2.1 ▸ Nat.one_pos) fun owner other hwriter => ?_
  obtain ⟨_, _, hmode⟩ := hladen.pool.writer_iff.1 hwriter
  cases hmode

/-- A cache with more places than there are pages has kept the first page, and that page is full. -/
theorem refused_reading {count : Nat} (hcount : count = UInt32.size) :
    let session := (ofPool (Pool.replete.resized (UInt32.size + 1)) 0).run reading
    let call : Call := .insert 1 0 (.ofCells [8])
    (session.run (inserting call (count + 1))).log =
      .call 9 call ⟨.error (.error (.pageFull ⟨0, 0⟩)), some (.ofCells [8])⟩ :: session.log := by
  intro session call
  have hladen := laden_reading (.inr rfl)
  obtain ⟨hcoherent, hfitted, hovergrown, pooled, hwrites⟩ := overwrites_reading (.inr rfl) hcount
  have hcached := hwrites.wipes.lodges.lasting (hladen.pool.ample (Nat.lt_succ_self _))
    hladen.pool.standing_cached_eq
  have hpeek := (standing_cached_iff.1 hcached).1
  rw [inserting, List.replicate_succ', ← List.cons_append, run_append]
  have hstep := hwrites.step_of_resident hcoherent hfitted hovergrown (hladen.pool.free _ _) rfl
    hpeek
  refine (congrArg Session.log hstep).trans ?_
  exact congrArg (_ :: ·) hwrites.log_eq

/-- The owner of a page that it has not written has other bytes there than storage. -/
theorem stale_under_lock : ∃ evaluations,
    let call : Call := .insert 1 0 (.ofCells [8])
    let after := (ofPool .replete 0).run (holding ++ inserting call evaluations)
    after.Reachable .strict ∧ after.pool.locks.table.mode? 1 ⟨0, 0⟩ = some .exclusive ∧
      after.pool.cache.peek? ⟨0, 0⟩ = some 0 ∧
      after.pool.page 0 = Page.load ⟨0, 0⟩ [128, 7, 0, 0, 0] ∧
      after.pool.stored? ⟨0, 0⟩ = some [0, 0, 0, 0, 0] := by
  obtain ⟨count, hcount⟩ : ∃ count, count = UInt32.size := ⟨_, rfl⟩
  have hladen := laden_holding.pool
  have hrefuses := refuses_of_laden (by decide_cbv) laden_holding hcount (.inr rfl)
  have howner := LockTable.mode?_eq_exclusive_iff.1 hladen.holds.locked
  obtain ⟨hpeek, hpage⟩ :=
    standing_cached_iff.1 (hrefuses.clears.cached_eq howner hladen.holds.cached_eq)
  refine ⟨count + 1, hrefuses.reachable, ?_, hpeek, hpage.symm,
    hladen.zeros_eq ▸ hrefuses.clears.zeros⟩
  rw [hrefuses.clears.modes_eq]
  exact hladen.holds.locked

/-- An insertion that nobody else is in the way of fails, and a tuple is gone from storage. -/
theorem insertion_displaces :
    let session := (ofPool .replete 0).run holding
    (∀ owner id, owner ≠ 1 → session.pool.locks.table.mode? owner id = none) ∧
      (session.pool.volume 0).pageCount session.pool.pageSize = .ok UInt32.size ∧
      session.pool.storedRows ⟨⟨0, 0⟩, 0⟩ = some [7] ∧
      ∃ evaluations,
        let call : Call := .insertInto 1 .narrow (.ofCells [8])
        let after := (ofPool .replete 0).run (holding ++ inserting call evaluations)
        after.outcome? 9 = some ⟨.error (.error (.pageFull ⟨0, 0⟩)), some (.ofCells [8])⟩ ∧
          after.pool.storedRows ⟨⟨0, 0⟩, 0⟩ = none := by
  intro session
  obtain ⟨count, hcount⟩ : ∃ count, count = UInt32.size := ⟨_, rfl⟩
  have hladen := laden_holding.pool
  have hrefuses := refuses_of_laden (by decide_cbv) laden_holding hcount (.inl rfl)
  refine ⟨fun owner id hne => ?_, hladen.counted, by decide_cbv, count + 1,
    outcome?_of_log hrefuses.log_eq, ?_⟩
  · rw [LockTable.mode?_eq_none_iff, hladen.records_eq]
    rintro ⟨record, hmem, rfl⟩
    split at hmem
    · exact hne (congrArg LockRecord.tx (List.mem_singleton.1 hmem))
    · cases hmem
  · exact storedRows_of_zeros (hrefuses.clears.tables_eq.trans hladen.tables_eq)
      (hladen.zeros_eq ▸ hrefuses.clears.zeros)

/-- An abort leaves a page that its transaction has written with bytes that nobody has given it. -/
theorem abort_keeps_zeros : ∃ evaluations,
    let call : Call := .insert 1 0 (.ofCells [8])
    let after := (ofPool .replete 0).run
      (scribbling ++ inserting call evaluations ++ [.command (.finish .abort 1)])
    after.Reachable .strict ∧ after.log.head? = some (.command (.finish .abort 1) (.ok .unit)) ∧
      Pool.replete.stored? ⟨0, 0⟩ = some [128, 7, 0, 0, 0] ∧
      after.pool.content ⟨0, 0⟩ = [128, 7, 0, 0, 0] ∧
      after.pool.stored? ⟨0, 0⟩ = some [0, 0, 0, 0, 0] := by
  obtain ⟨count, hcount⟩ : ∃ count, count = UInt32.size := ⟨_, rfl⟩
  have hlapses := lapses_of_laden (by decide_cbv) laden_scribbling hcount (.inr rfl) .abort
  refine ⟨count + 1, hlapses.reachable, congrArg List.head? hlapses.log_eq, by decide_cbv,
    hlapses.content_eq, ?_⟩
  exact laden_scribbling.pool.zeros_eq ▸ hlapses.stored?_eq

/-- A commit leaves zeros of a page that its transaction has written, and that has been flushed. -/
theorem commit_keeps_zeros : ∃ evaluations,
    let call : Call := .insert 1 0 (.ofCells [8])
    let after := (ofPool .replete 0).run
      (scribbling ++ [.command .flushAll] ++ inserting call evaluations ++
        [.command (.finish .commit 1)])
    after.Reachable .strict ∧ after.log.head? = some (.command (.finish .commit 1) (.ok .unit)) ∧
      after.pool.content ⟨0, 0⟩ = [128, 9, 0, 0, 0] ∧
      after.pool.stored? ⟨0, 0⟩ = some [0, 0, 0, 0, 0] := by
  obtain ⟨count, hcount⟩ : ∃ count, count = UInt32.size := ⟨_, rfl⟩
  have hlapses := lapses_of_laden (by decide_cbv) laden_flushing hcount (.inr rfl) .commit
  refine ⟨count + 1, hlapses.reachable, congrArg List.head? hlapses.log_eq, hlapses.content_eq, ?_⟩
  exact laden_flushing.pool.zeros_eq ▸ hlapses.stored?_eq

/-- After the same calls and a flush more, storage has other bytes when all have ended. -/
theorem flush_keeps_zeros : ∃ evaluations,
    let call : Call := .insert 1 0 (.ofCells [8])
    let plain := (ofPool .replete 0).run
      (scribbling ++ inserting call evaluations ++ [.command (.finish .commit 1)])
    let flushed := (ofPool .replete 0).run
      (scribbling ++ [.command .flushAll] ++ inserting call evaluations ++
        [.command (.finish .commit 1)])
    plain.Reachable .strict ∧ flushed.Reachable .strict ∧
      plain.pool.stored? ⟨0, 0⟩ = some [128, 9, 0, 0, 0] ∧
      flushed.pool.stored? ⟨0, 0⟩ = some [0, 0, 0, 0, 0] := by
  obtain ⟨count, hcount⟩ : ∃ count, count = UInt32.size := ⟨_, rfl⟩
  have hplain := lapses_of_laden (by decide_cbv) laden_scribbling hcount (.inr rfl) .commit
  have hflushed := lapses_of_laden (by decide_cbv) laden_flushing hcount (.inr rfl) .commit
  refine ⟨count + 1, hplain.reachable, hflushed.reachable, hplain.stored?_eq, ?_⟩
  exact laden_flushing.pool.zeros_eq ▸ hflushed.stored?_eq

/-- The same calls insert a tuple with one place in the cache, and are refused with places for all
pages. Both caches have found room for every page. -/
theorem insertion_by_capacity : ∃ evaluations,
    let events := reading ++ inserting (.insert 1 0 (.ofCells [8])) evaluations
    let small := (ofPool (Pool.replete.resized 1) 0).run events
    let large := (ofPool (Pool.replete.resized (UInt32.size + 1)) 0).run events
    small.Reachable .strict ∧ large.Reachable .strict ∧
      small.isExhausted = false ∧ large.isExhausted = false ∧
      small.outcome? 9 =
        some ⟨.ok .unit, some { Tuple.ofCells [8] with rid := some ⟨⟨0, 0⟩, 0⟩ }⟩ ∧
      large.outcome? 9 =
        some ⟨.error (.error (.pageFull ⟨0, 0⟩)), some (.ofCells [8])⟩ := by
  obtain ⟨count, hcount⟩ : ∃ count, count = UInt32.size := ⟨_, rfl⟩
  have hinserted := inserted_reading hcount
  have hrefused := refused_reading hcount
  refine ⟨count + 1, reachable_reading (.inl rfl) _, reachable_reading (.inr rfl) _, ?_⟩
  simp only [run_append]
  refine ⟨?_, ?_, outcome?_of_log hinserted, outcome?_of_log hrefused⟩
  · rw [isExhausted, hinserted]
    decide_cbv
  · rw [isExhausted, hrefused]
    decide_cbv

/-- A tuple is lost, though nothing has been deleted and no transaction has committed. -/
theorem abort_loses_tuple : ∃ evaluations,
    let call : Call := .insert 1 0 (.ofCells [8])
    let after := (ofPool .replete 0).run
      (misdeleting ++ inserting call evaluations ++ [.command (.finish .abort 1)])
    after.Reachable .strict ∧ (Entry.register after.log).committed = [] ∧
      Pool.replete.storedRows ⟨⟨0, 0⟩, 0⟩ = some [7] ∧
      after.pool.storedRows ⟨⟨0, 0⟩, 0⟩ = none := by
  obtain ⟨count, hcount⟩ : ∃ count, count = UInt32.size := ⟨_, rfl⟩
  have hlapses := lapses_of_laden (by decide_cbv) laden_misdeleting hcount (.inr rfl) .abort
  have hladen := laden_misdeleting.pool
  refine ⟨count + 1, hlapses.reachable, ?_, by decide_cbv, ?_⟩
  · rw [hlapses.log_eq]
    decide_cbv
  · exact storedRows_of_zeros (hlapses.tables_eq.trans hladen.tables_eq)
      (hladen.zeros_eq ▸ hlapses.stored?_eq)

end Session

end PagePool
