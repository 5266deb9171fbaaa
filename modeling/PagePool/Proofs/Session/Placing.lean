import PagePool.Proofs.Pool.Hold
import PagePool.Proofs.Pool.Placing
import PagePool.Proofs.Session.Likeness
import PagePool.Proofs.Session.Loans
import PagePool.Proofs.Session.Scan
import PagePool.Proofs.Session.Untouched

/-!
# An insertion that nobody gets in the way of

If no lock request of an insertion is blocked, it runs from one request to the next until it ends.
It puts its tuple where it belongs, and the only lock that is left of those on its way is the one on
that page. At every request the locks are those from before the call: the induction is on the pages
up to the place of the tuple.
-/

namespace PagePool

open LockRecord Pool

namespace Session

/-- A call has issued a request, in a pool that shows what is to be seen, and the clock can tell
deadlines. -/
structure Asks (session : Session) (id : Nat) (call : Call) (view : View) (modes : LockModes)
    (first : Pool) (operation : Operation) : Prop where
  shows : session.pool.Shows view modes first
  task : session.task? id = some { id, call, operation, wait := .issued }
  timed : ∃ budget, Budget.start view.locks.policy session.now = .ok budget

/-- An insertion has run out of room in the cache, or has put its tuple where it belongs. -/
def Inserted (after : Session) (first : Pool) (tx : TxId) (table : Table) (layout : Layout)
    (count : Nat) (tuple : Tuple) (id : Nat) : Prop :=
  (∃ resident, after.outcome? id = some ⟨.error (.error (.noVictim resident)), some tuple⟩) ∨
    ∃ index slot, first.Lands table layout count index slot ∧
      after.outcome? id =
        some ⟨.ok .unit, some { tuple with rid := some ⟨table.page index, slot⟩ }⟩ ∧
      first.Places tx table count index slot tuple.cells after.pool

/-- A call has run out of room in the cache. More pages than any that are given are locked for
writing, if the cache has places for more. -/
structure RunsOut (after : Session) (first : Pool) (tuple : Tuple) (id : Nat) : Prop where
  outcome_eq : ∃ resident,
    after.outcome? id = some ⟨.error (.error (.noVictim resident)), some tuple⟩
  crowded : first.Readable → ∀ given : List PageId, given.length < first.cache.capacity →
    ∃ other owner, first.locks.table.mode? owner other = some .exclusive ∧ other ∉ given

variable {session : Session} {pool first : Pool} {view : View} {modes : LockModes} {id : Nat}
  {call : Call} {operation : Operation} {request : Request} {goal : Goal} {tx : TxId}
  {table : Table} {layout : Layout} {tuple : Tuple} {pooled : Bool} {count index slot : Nat}

theorem asks_after (hshows : pool.Shows view modes first)
    (htimed : ∃ budget, Budget.start view.locks.policy session.now = .ok budget) (id : Nat)
    (call : Call) (tuple : Option Tuple) (operation : Operation) :
    (session.after id call tuple (.ok (.ask operation) pool)).deliver.Asks id call view modes first
      operation where
  shows := hshows.of_table rfl rfl
  task := by
    rw [task?_deliver]
    exact congrArg (Option.map (notifyTask _)) (task?_suspend _ id call operation)
  timed := htimed

theorem evaluate_of_free {task : Task} {budget : Budget}
    (hbudget : Budget.start session.pool.locks.policy session.now = .ok budget)
    (hfree : session.pool.locks.table.blockers task.operation.request = []) :
    session.evaluate task = (session.withLocks
      ((session.pool.locks.enter task.operation.request.tx).grant
        task.operation.request)).granted task := by
  have hentered : (session.withLocks
      (session.pool.locks.enter task.operation.request.tx)).pool.locks.table.blockers
        task.operation.request = [] := hfree
  rw [evaluate_of_budget hbudget, attempt_of_free hentered]
  rfl

theorem granted_of_shows {task : Task} (h : session.pool.Shows view modes first)
    (hgoal : task.operation.goal ≠ .lock) (hhas : view.Has task.operation.request.page)
    (hopen : view.isGated task.operation.request.page = false) :
    (∃ (resident : Nat) (middle pool : Pool), middle.Shows view modes first ∧
        middle.Excludes task.operation.request.page ∧
        session.granted task = session.resume task (.error (.error (.noVictim resident)) pool)) ∨
      ∃ ref pool, pool.Shows view modes first ∧
        pool.cache.peek? task.operation.request.page = some ref ∧
        session.granted task = session.resume task (task.operation.proceed ref pool) := by
  obtain ⟨fetched, middle, hrun, hmiddle, hprovides, hcache, harrives⟩ := h.arrives hhas
  have hungated : middle.isGated task.operation.request.page = false :=
    (hmiddle.isGated_eq _).trans hopen
  rw [Likeness.granted_of_open hgoal rfl hrun hprovides hcache fun hgated => by
    rw [hungated] at hgated
    cases hgated]
  simp only [arrive, Likeness.resume_withPool, bind, EStateM.bind]
  rcases harrives with ⟨ref, after, hinstall, hafter, hpeek⟩ | ⟨resident, after, hinstall, hfull⟩
  · exact .inr ⟨ref, after, hafter, hpeek, by rw [hinstall]⟩
  · exact .inl ⟨resident, middle, after, hmiddle, hfull, by rw [hinstall]⟩

/-- A request that nobody blocks is granted, and the call goes on with its page. -/
theorem Asks.evaluate (h : session.Asks id call view modes first ⟨request, goal⟩)
    (hgoal : goal ≠ .lock) (hfree : modes.Free request) (hhas : view.Has request.page)
    (hopen : view.isGated request.page = false) :
    (∃ (resident : Nat) (middle pool : Pool),
        middle.Shows view (modes.grant request) first ∧ middle.Excludes request.page ∧
        session.step (.evaluate id) = (session.after id call goal.inserted?
          (.error (.error (.noVictim resident)) pool)).deliver) ∨
      ∃ ref pool, pool.Shows view (modes.grant request) first ∧
        pool.cache.peek? request.page = some ref ∧
        session.step (.evaluate id) = (session.after id call goal.inserted?
          (Operation.proceed ⟨request, goal⟩ ref pool)).deliver := by
  obtain ⟨budget, hbudget⟩ := h.timed
  rw [← h.shows.policy_eq] at hbudget
  let task : Task := { id, call, operation := ⟨request, goal⟩, wait := .issued }
  have hevaluate := @evaluate_of_free session task budget hbudget (h.shows.blockers_eq hfree)
  have hstep : session.step (.evaluate id) = (session.evaluate task).deliver :=
    step_evaluate h.task rfl
  have hgranted : Pool.Shows view (modes.grant request) (session.withLocks
      ((session.pool.locks.enter request.tx).grant request)).pool first :=
    h.shows.granted hfree rfl rfl
  rcases @granted_of_shows _ _ _ _ task hgranted hgoal hhas hopen with
    ⟨resident, middle, pool, hmiddle, hfull, hrun⟩ | ⟨ref, pool, hshows, hpeek, hrun⟩
  · refine .inl ⟨resident, middle, pool, hmiddle, hfull, ?_⟩
    rw [hstep, hevaluate, hrun]
    exact congrArg deliver (Likeness.resume_withPool session _ task _)
  · refine .inr ⟨ref, pool, hshows, hpeek, ?_⟩
    rw [hstep, hevaluate, hrun]
    exact congrArg deliver (Likeness.resume_withPool session _ task _)

section Place

variable (insertion : Insertion) (htables : view.tables = first.tables)
  (hsize : view.pageSize = first.pageSize) (hcontent : view.content = first.content)
  (hfitted : first.Fitted) (hlayout : first.layout? table.id = some layout)
  (hwidth : insertion.tuple.width = layout.schema.fields)
include htables hsize hcontent hfitted hlayout hwidth

/-- A tuple is put onto the page that its transaction has got for it. -/
theorem placed_of_shows {placement : Placement} {ref : PageRef}
    (hplacement : placement.mode = .exclusive)
    (h : pool.Shows view (modes.put tx (table.page index) (some .exclusive)) first)
    (hpeek : pool.cache.peek? (table.page index) = some ref)
    (hplace : first.FirstFree layout ⟨table.page index, slot⟩)
    (hcount : (view.outline table.volume).count view.pageSize = .ok (max count (index + 1)))
    (hmodes : modes.put tx (table.page index) (some .exclusive) =
      LockModes.put first.locks.table.mode? tx (table.page index) (some .exclusive)) :
    ∃ after, Operation.proceed
        ⟨⟨tx, table.page index, .exclusive⟩, .insert insertion layout placement⟩ ref pool =
          .ok (.done ⟨.ok .unit, some { insertion.tuple with
            rid := some ⟨table.page index, slot⟩ }⟩) after ∧
        first.Places tx table count index slot insertion.tuple.cells after := by
  have hrows : pool.shownRows = first.shownRows :=
    shownRows_congr (h.tables_eq.trans htables) (h.content_eq.trans hcontent)
  have hfitted' : pool.Fitted :=
    hfitted.congr (h.tables_eq.trans htables) (h.pageSize_eq.trans hsize)
  have hlayout' : pool.layout? (table.page index).table = some layout :=
    (congrFun (layout?_eq (h.tables_eq.trans htables)) _).trans hlayout
  have howner : OwnedBy (pool.locks.table.records (table.page index)) tx :=
    LockTable.mode?_eq_exclusive_iff.1 (by rw [h.modes_eq, LockModes.put_self])
  have hproceed : Operation.proceed
      ⟨⟨tx, table.page index, .exclusive⟩, .insert insertion layout placement⟩ ref pool =
        insertion.place tx layout ref pool := by
    cases placement with
    | inspect => cases hplacement
    | upgrade | append => rfl
  have hends := ends_place_exact h.coherent hfitted' hpeek hlayout' howner insertion
  have hplace' := hplace.congr hrows
  unfold Ends at hends
  rw [hproceed]
  cases hrun : insertion.place tx layout ref pool with
  | error failure after =>
      rw [hrun] at hends
      rcases hends.2 with hmismatch | ⟨hfull, _⟩
      · exact absurd hwidth hmismatch
      · exact absurd hfull hplace'.not_full
  | ok step after =>
      rw [hrun] at hends
      obtain ⟨slot', hfirst, rfl, hafter, _, data, hview⟩ := hends
      obtain rfl := hplace'.eq hfirst
      have hlocks : after.locks = pool.locks := congrArg View.locks hview
      have houtline : after.outline = view.outline :=
        (congrArg View.outline hview).trans h.outline_eq
      have hpageSize : after.pageSize = view.pageSize :=
        (congrArg View.pageSize hview).trans h.pageSize_eq
      refine ⟨after, rfl, ?_, ?_, ?_⟩
      · rw [hafter, hrows]
      · rw [Volume.pageCount_eq, hpageSize, ← hcount, ← houtline, ← hpageSize]
        rfl
      · rw [hlocks, h.modes_eq, hmodes]

end Place

section Pass

variable (h : first.Paged table count)
include h

/-- An insertion comes to a page and looks at it. -/
theorem looks_at (htimed : ∃ budget, Budget.start first.locks.policy session.now = .ok budget)
    (layout : Layout) (tuple : Tuple) (id : Nat) (call : Call) (pooled : Bool)
    (hindex : index < count)
    (hfree : LockModes.Free first.locks.table.mode? ⟨tx, table.page index, .shared⟩)
    (hshows : pool.Shows first.view first.locks.table.mode? first) :
    ∃ asked : Session, asked = (session.after id call (some tuple)
        (inspectFrom tx { table, tuple, pooled } layout index count pool)).deliver ∧
      asked.now = session.now ∧ asked.log = session.log ∧
      ((asked.step (.evaluate id)).RunsOut first tuple id ∨
        ∃ ref after, after.Shows first.view
            (LockModes.grant first.locks.table.mode? ⟨tx, table.page index, .shared⟩) first ∧
          after.cache.peek? (table.page index) = some ref ∧
          asked.step (.evaluate id) = (asked.after id call (some tuple)
            (Operation.proceed ⟨⟨tx, table.page index, .shared⟩,
              .insert { table, tuple, pooled } layout (.inspect index count
                (first.locks.table.mode? tx (table.page index)).isSome)⟩ ref after)).deliver) := by
  rw [inspectFrom_of_lt hshows hindex]
  refine ⟨_, rfl, rfl, rfl, ?_⟩
  have hasks := @asks_after session _ _ _ _ hshows htimed id call (some tuple)
    ⟨⟨tx, table.page index, .shared⟩, .insert { table, tuple, pooled } layout
      (.inspect index count (first.locks.table.mode? tx (table.page index)).isSome)⟩
  rcases hasks.evaluate nofun hfree (h.has hindex) h.isGated_eq with
    ⟨resident, middle, _, hmiddle, hfull, hstep⟩ | hstep
  · refine .inl ⟨⟨resident, hstep ▸ outcome?_of_log rfl⟩, fun hreadable given hplaces => ?_⟩
    obtain ⟨other, owner, hwriter, _, hother⟩ := hmiddle.crowded hfull hreadable hplaces
    exact ⟨other, owner, LockModes.eq_exclusive_of_grant hwriter, hother⟩
  · exact .inr hstep

/-- An insertion goes on over full pages, request by request, and the pool shows what it showed. -/
theorem passes_from (hfitted : first.Fitted) (hlayout : first.layout? table.id = some layout)
    (tuple : Tuple) (id : Nat) (call : Call) (pooled : Bool) {landing remaining : Nat}
    (hlanding : landing ≤ count)
    (hfull : ∀ earlier < landing, first.Full layout (table.page earlier))
    (hfree : ∀ earlier < landing,
      LockModes.Free first.locks.table.mode? ⟨tx, table.page earlier, .shared⟩)
    (htimed : ∃ budget, Budget.start first.locks.policy session.now = .ok budget)
    (hshows : pool.Shows first.view first.locks.table.mode? first)
    (hlatest : pool.HasLatest table index) (hindex : landing = index + remaining) :
    ∃ begun, begun = (session.after id call (some tuple)
        (inspectFrom tx { table, tuple, pooled } layout index count pool)).deliver ∧
      ((∃ evaluations,
          (begun.run (List.replicate evaluations (.evaluate id))).RunsOut first tuple id) ∨
        ∃ (last : Session) (left : Pool), last.now = session.now ∧ last.log = session.log ∧
          left.Shows first.view first.locks.table.mode? first ∧ left.HasLatest table landing ∧
          begun.run (List.replicate remaining (.evaluate id)) = (last.after id call (some tuple)
            (inspectFrom tx { table, tuple, pooled } layout landing count left)).deliver) := by
  induction remaining generalizing session pool index with
  | zero =>
      obtain rfl : landing = index := hindex
      exact ⟨_, rfl, .inr ⟨session, pool, rfl, rfl, hshows, hlatest, rfl⟩⟩
  | succ remaining ih =>
      have hearlier : index < landing := by omega
      obtain ⟨asked, rfl, hnow, hlog, hlook⟩ := looks_at h htimed layout tuple id call pooled
        (Nat.lt_of_lt_of_le hearlier hlanding) (hfree index hearlier) hshows
      refine ⟨_, rfl, ?_⟩
      rcases hlook with hended | ⟨ref, after, hafter, hpeek, hstep⟩
      · exact .inl ⟨1, hended⟩
      -- the page is full, and is left under the locks from before
      have hfull' : after.Full layout (table.page index) := fun slot hslot => by
        rw [hafter.shownRows_eq]
        exact hfull index hearlier slot hslot
      obtain ⟨left, hleft, hcache, hproceed⟩ :=
        proceed_of_full { table, tuple, pooled } index count hafter (hafter.fitted hfitted) rfl
          hpeek (hafter.layout?_eq hlayout) hfull'
      have hlatest' : left.HasLatest table (index + 1) := .succ (hcache ▸ hpeek)
      obtain ⟨begun, hbegun, hends⟩ := ih (hnow ▸ htimed) hleft hlatest'
        (show landing = index + 1 + remaining by omega)
      rw [hproceed, ← hbegun] at hstep
      rcases hends with ⟨evaluations, hended⟩ | ⟨last, passed, hlast, hkept, hpassed, hfinal, hrun⟩
      · refine .inl ⟨evaluations + 1, ?_⟩
        rwa [List.replicate_succ, run_cons, hstep]
      · refine .inr ⟨last, passed, hlast.trans hnow, hkept.trans hlog, hpassed, hfinal, ?_⟩
        rwa [List.replicate_succ, run_cons, hstep]

end Pass

section Run

variable (h : first.Accepts tx table layout count tuple) (hpool : first.Coherent)
  (hfitted : first.Fitted)
include h hpool hfitted

/-- A request for writing is the last one. -/
theorem Asks.inserts {placement : Placement} (hplacement : placement.mode = .exclusive)
    (hasks : session.Asks id call view modes first
      ⟨⟨tx, table.page index, .exclusive⟩, .insert { table, tuple, pooled } layout placement⟩)
    (hlands : first.Lands table layout count index slot)
    (hfree : modes.Free ⟨tx, table.page index, .exclusive⟩)
    (hmodes : modes.put tx (table.page index) (some .exclusive) =
      LockModes.put first.locks.table.mode? tx (table.page index) (some .exclusive))
    (htables : view.tables = first.tables) (hsize : view.pageSize = first.pageSize)
    (hcontent : view.content = first.content) (hhas : view.Has (table.page index))
    (hopen : view.isGated (table.page index) = false)
    (hcount : (view.outline table.volume).count view.pageSize = .ok (max count (index + 1))) :
    (session.step (.evaluate id)).Inserted first tx table layout count tuple id := by
  rcases hasks.evaluate nofun hfree hhas hopen with ⟨resident, _, pool, _, _, hstep⟩ |
    ⟨ref, pool, hshows, hpeek, hstep⟩
  · exact .inl ⟨resident, hstep ▸ outcome?_of_log rfl⟩
  · rw [LockModes.grant_exclusive] at hshows
    obtain ⟨after, hproceed, hplaces⟩ := placed_of_shows { table, tuple, pooled }
      htables hsize hcontent hfitted h.layout?_eq h.width hplacement hshows hpeek
      (h.firstFree hpool hfitted hlands) hcount hmodes
    rw [hstep, hproceed]
    exact .inr ⟨index, slot, hlands, outcome?_of_log rfl, hplaces.rows, hplaces.pages,
      hplaces.modes⟩

/-- Where its tuple belongs, an insertion puts it. -/
theorem inserts_at (htimed : ∃ budget, Budget.start first.locks.policy session.now = .ok budget)
    (id : Nat) (call : Call) (pooled : Bool) (hlands : first.Lands table layout count index slot)
    (hshows : pool.Shows first.view first.locks.table.mode? first) :
    ∃ evaluations, Inserted
      ((session.after id call (some tuple)
        (inspectFrom tx { table, tuple, pooled } layout index count pool)).deliver.run
          (List.replicate evaluations (.evaluate id)))
      first tx table layout count tuple id := by
  obtain ⟨hfree, _⟩ := h.unhindered hlands
  rcases Nat.lt_or_eq_of_le hlands.index_le with hlt | rfl
  · obtain ⟨asked, rfl, hnow, _, hlook⟩ := looks_at h.paged htimed layout tuple id call pooled hlt
      hfree.shared hshows
    rcases hlook with hended | ⟨ref, after, hafter, hpeek, hstep⟩
    · exact ⟨1, .inl hended.outcome_eq⟩
    -- the page has room, and is asked for again
    rw [proceed_of_room hafter.coherent (hafter.fitted hfitted) hpeek
      (hafter.layout?_eq h.layout?_eq)
      ((hlands.firstFree hlt).congr hafter.shownRows_eq).not_full] at hstep
    refine ⟨2, ?_⟩
    rw [List.replicate_succ, run_cons, hstep]
    refine Asks.inserts h hpool hfitted (rfl : Placement.upgrade.mode = .exclusive)
      (asks_after hafter (hnow ▸ htimed) id call (some tuple) _) hlands (hfree.grant _)
      (LockModes.put_grant ..) rfl rfl rfl (h.paged.has hlt) h.paged.isGated_eq ?_
    rw [Nat.max_eq_left hlt]
    exact h.paged.count_eq
  · obtain ⟨after, hafter, hrun⟩ := @inspectFrom_of_le pool first first.view _ tx layout
      { table, tuple, pooled } index hshows h.registered h.isFile h.paged.count_eq h.numbered
    rw [hrun]
    refine ⟨1, Asks.inserts h hpool hfitted (rfl : Placement.append.mode = .exclusive)
      (asks_after hafter htimed id call (some tuple) _) hlands hfree rfl rfl rfl rfl
      h.has_extended h.isGated_extended ?_⟩
    rw [Nat.max_eq_right (Nat.le_succ index)]
    exact h.count_extended

/-- From the first page up to the place of the tuple an insertion gets there, request by request. -/
theorem inserts (htimed : ∃ budget, Budget.start first.locks.policy session.now = .ok budget)
    (id : Nat) (call : Call) (pooled : Bool)
    (hshows : pool.Shows first.view first.locks.table.mode? first) :
    ∃ evaluations, Inserted
      ((session.after id call (some tuple) (inspectFrom tx { table, tuple, pooled } layout 0 count
        pool)).deliver.run (List.replicate evaluations (.evaluate id)))
      first tx table layout count tuple id := by
  obtain ⟨landing, slot, hlands⟩ := first.exists_lands table layout count
  obtain ⟨begun, rfl, hends⟩ := passes_from h.paged hfitted h.layout?_eq tuple id call pooled
    hlands.index_le (fun _ => hlands.full) (h.unhindered hlands).2 htimed hshows
    (.zero pool table) (Nat.zero_add landing).symm
  rcases hends with ⟨evaluations, hended⟩ | ⟨last, left, hnow, _, hleft, _, hrun⟩
  · exact ⟨evaluations, .inl hended.outcome_eq⟩
  · obtain ⟨evaluations, hinserted⟩ :=
      inserts_at h hpool hfitted (hnow ▸ htimed) id call pooled hlands hleft
    refine ⟨landing + evaluations, ?_⟩
    rw [List.replicate_add, run_append, hrun]
    exact hinserted

end Run

/-- The pool and the table begin an insertion alike. -/
theorem start_insertion (hregistered : first.Registered table) (hheap : table.kind = .heap layout)
    (hcount : (first.volume table.volume).pageCount first.pageSize = .ok count)
    (hcall : call = .insertInto tx table tuple ∨ call = .insert tx table.id tuple) :
    ∃ pooled, call.inserted? = some tuple ∧
      call.start first = inspectFrom tx { table, tuple, pooled } layout 0 count first := by
  have hstart : ∀ pooled, Insertion.start { table, tuple, pooled } tx first =
      inspectFrom tx { table, tuple, pooled } layout 0 count first := by
    intro pooled
    simp only [Insertion.start, hheap, pageCount, bind, EStateM.bind, get, getThe, MonadStateOf.get,
      EStateM.get, lift, hcount]
  rcases hcall with rfl | rfl
  · exact ⟨false, rfl, hstart false⟩
  · refine ⟨true, rfl, ?_⟩
    rw [← hstart true]
    simp only [Call.start, bind, EStateM.bind, getTable_eq hregistered]

theorem Follows.fitted {events : List Event} (h : session.Follows events) (hsound : session.Sound)
    (hfitted : session.pool.Fitted) : (session.run events).pool.Fitted := by
  refine (h.induction (motive := fun session => session.Sound ∧ session.pool.Fitted)
    ⟨hsound, hfitted⟩ ?_).2
  intro session event ⟨hsound, hfitted⟩ hroom hpermits
  have hstep := hsound.step hroom hpermits
  exact ⟨hstep.1, hfitted.congr hstep.2.tables_eq hstep.2.pageSize_eq⟩

/-- **Placement and footprint of an insertion.** Whatever transactions have done before: a tuple that
is inserted into a heap table without being blocked goes to the lowest free slot of the first page
that has one, as the pool shows the pages, or to the first slot of a new page behind the last one if
all pages are full. No other tuple changes. The transaction has locked that page for writing then,
and has all its other locks as before; so have all others. Only if the cache has no room for one of
the pages does the insertion fail. The table has fewer than 2 ^ 32 pages, and so has any other heap
table whenever an insertion into it has gone on before; else the new page does not get the number
behind the last one, but that of a page that is there. -/
theorem insertion_placed (hready : pool.Ready) (hfitted : pool.Fitted) {now : Nat}
    {events : List Event} (h : (ofPool pool now).Follows events)
    (hcall : call = .insertInto tx table tuple ∨ call = .insert tx table.id tuple) :
    let session := (ofPool pool now).run events
    session.task? id = none →
      (∃ budget, Budget.start session.pool.locks.policy session.now = .ok budget) →
        session.pool.Accepts tx table layout count tuple →
          ∃ evaluations,
            (session.run (.start id call :: List.replicate evaluations (.evaluate id))).Inserted
              session.pool tx table layout count tuple id := by
  intro session hunused htimed haccepts
  have hcoherent := (h.sound hready).coherent
  have hfits : session.pool.Fitted := h.fitted (.ofPool hready now) hfitted
  obtain ⟨pooled, htuple, hstart⟩ :=
    start_insertion haccepts.registered haccepts.heap haccepts.counted hcall
  obtain ⟨evaluations, hinserted⟩ :=
    inserts haccepts hcoherent hfits htimed id call pooled (.refl hcoherent)
  refine ⟨evaluations, ?_⟩
  rw [run_cons, step_start hunused, htuple, hstart]
  exact hinserted

/-- A tuple has been inserted and committed, and somebody reads its page. -/
def watching : List Event :=
  filling ++ [.start 1 (.get 1 ⟨0, 0⟩ .shared), .evaluate 1]

/-- The only page is full, and the reader has no lock that is in the way. -/
theorem accepts_watching : ((ofPool .narrow 0).run watching).pool.Accepts 3 .narrow
    { schema := { fields := 1 }, pageSize := 5 } 1 (.ofCells [8]) where
  registered := by decide_cbv
  heap := rfl
  slots := by decide
  width := rfl
  isFile := by decide_cbv
  ungated := by decide_cbv
  counted := by cbv
  numbered := by decide
  unhindered := by
    intro index slot hlands
    cases hlands with
    | found hindex _ hfree =>
        obtain rfl := Nat.lt_one_iff.1 hindex
        refine absurd (fun slot hslot => ?_) hfree.not_full
        obtain rfl := Nat.lt_one_iff.1 hslot
        decide_cbv
    | appended =>
        refine ⟨LockTable.free_iff.2 (by decide_cbv), fun earlier hearlier => ?_⟩
        obtain rfl := Nat.lt_one_iff.1 hearlier
        exact LockTable.free_iff.2 (by decide_cbv)

theorem insertion_placed_watching :
    let session := (ofPool .narrow 0).run watching
    let call : Call := .insertInto 3 .narrow (.ofCells [8])
    (session.run (.start 3 call :: List.replicate 2 (.evaluate 3))).outcome? 3 =
        some ⟨.ok .unit, some ⟨[8], some ⟨⟨0, 1⟩, 0⟩⟩⟩ ∧
      ∃ evaluations,
        (session.run (.start 3 call :: List.replicate evaluations (.evaluate 3))).Inserted
          session.pool 3 .narrow { schema := { fields := 1 }, pageSize := 5 } 1 (.ofCells [8]) 3 :=
  ⟨by cbv, insertion_placed Pool.narrow_ready (by decide) (by decide_cbv) (.inl rfl)
    (by decide_cbv) ⟨_, by cbv⟩ accepts_watching⟩

end Session

end PagePool
