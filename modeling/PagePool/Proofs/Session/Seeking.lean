import PagePool.Proofs.Pool.Seeking
import PagePool.Proofs.Session.Placing

/-!
# Insertions among other calls

Other transactions may do anything between two lock requests of an insertion. The pages that it goes
through do not go away, and a page that it has found room on is locked until it writes there. What
it makes when all pages are full is open to everybody until its own request for the page is granted,
so there and only there a tuple may find no room.
-/

namespace PagePool

open LockRecord Pool

theorem Pool.Seeks.steadies {pool after : Pool} {tx : TxId} {insertion : Insertion}
    {layout : Layout} {made : PageId → Prop} {operation : Operation}
    (h : pool.Seeks tx insertion layout made operation) (hsteady : pool.Steadies tx after) :
    after.Seeks tx insertion layout made operation := by
  cases h with
  | inspect hindex hstored =>
      exact .inspect hindex fun other hother => hsteady.isSome_stored _ (hstored other hother)
  | upgrade htable hstored hheld hroom =>
      refine .upgrade htable (hsteady.isSome_stored _ hstored) (hsteady.heldBy _ hheld) ?_
      rwa [full_congr hsteady.tables_eq (hsteady.content_eq _ hheld)]
  | append htable hstored hmade => exact .append htable (hsteady.isSome_stored _ hstored) hmade

/-- Both ways to insert into a heap table may append to it. -/
theorem Pool.Seats.grown? {pool : Pool} {table : Table} {layout : Layout} {tuple : Tuple}
    {call : Call} (h : pool.Seats table layout tuple)
    (hcall : call = .insertInto call.tx table tuple ∨ call = .insert call.tx table.id tuple) :
    pool.grown? call = some table := by
  have hheap : table.layout?.isSome := by rw [Table.layout?, h.heap]; rfl
  rcases hcall with hcall | hcall <;> rw [hcall]
  · exact grown?_insertInto hheap
  · exact grown?_insert h.registered hheap

namespace Session

/-- While it has a call under way, a transaction changes no page besides and gives none back. -/
def Sequential (session : Session) (tx : TxId) : List Event → Prop
  | [] => True
  | event :: rest => (session.Idle tx ∨ event.Steady tx) ∧ (session.step event).Sequential tx rest

instance decidableSequential : (session : Session) → (tx : TxId) → (events : List Event) →
    Decidable (session.Sequential tx events)
  | _, _, [] => inferInstanceAs (Decidable True)
  | session, tx, event :: rest =>
      have := decidableSequential (session.step event) tx rest
      inferInstanceAs (Decidable ((session.Idle tx ∨ event.Steady tx) ∧
        (session.step event).Sequential tx rest))

/-- A call is waiting for an exclusive lock on a page. -/
def AsksFor (session : Session) (call : Call) (page : PageId) : Prop :=
  ∃ task ∈ session.tasks, task.call = call ∧ task.operation.request = ⟨call.tx, page, .exclusive⟩

/-- A call has made a page at an event of a run, and has been waiting for its lock since. -/
inductive Appended (first : Session) (call : Call) (page : PageId) : List Event → Prop where
  | made {events : List Event} {event : Event}
      (hcall : (first.run events).call? event = some call)
      (hblank : (first.run events).pool.stored? page = none)
      (hstored : ((first.run (events ++ [event])).pool.stored? page).isSome)
      (hasks : (first.run (events ++ [event])).AsksFor call page) :
      Appended first call page (events ++ [event])
  | waits {events : List Event} {event : Event} (h : Appended first call page events)
      (hasks : (first.run (events ++ [event])).AsksFor call page) :
      Appended first call page (events ++ [event])

/-- What a call is about to do with its page, if it is under way. -/
def Seeking (session : Session) (call : Call) (table : Table) (layout : Layout) (tuple : Tuple)
    (made : PageId → Prop) : Prop :=
  ∀ task ∈ session.tasks, task.call = call → ∃ pooled,
    session.pool.Seeks call.tx { table, tuple, pooled } layout made task.operation

variable {session first : Session} {pool : Pool} {event : Event} {events : List Event}
  {call : Call} {tx : TxId} {table : Table} {layout : Layout} {tuple : Tuple}
  {made : PageId → Prop}

theorem sequential_append {rest : List Event} : session.Sequential tx (events ++ rest) ↔
    session.Sequential tx events ∧ (session.run events).Sequential tx rest := by
  induction events generalizing session with
  | nil => exact (iff_of_eq (true_and _)).symm
  | cons event events ih =>
      rw [List.cons_append, run_cons, Sequential, Sequential, ih, and_assoc]

section Calls

variable (hcall : call = .insertInto call.tx table tuple ∨ call = .insert call.tx table.id tuple)
include hcall

/-- An insertion starts out for all pages that there are. -/
theorem ends_start_seeks (hpool : pool.Coherent) (hfitted : pool.Fitted)
    (hseats : pool.Seats table layout tuple) (hroom : pool.HasRoom table) :
    ∃ pooled, Ends call.start pool
      (fun step after => ∃ operation, step = .ask operation ∧ after.Seeks call.tx
        { table, tuple, pooled } layout (fun page => pool.stored? page = none) operation)
      (fun _ _ => (pool.outline table.volume).isFile = false) := by
  have hsize := hseats.pageSize_ne_zero hfitted
  have hvolume := hroom.volume hseats.registered
  have hcount : (pool.volume table.volume).pageCount pool.pageSize =
      .ok (pool.outline table.volume).pages := by
    rw [Volume.pageCount_eq]
    exact if_neg fun hempty => hsize hempty.2
  obtain ⟨pooled, _, hstart⟩ := start_insertion hseats.registered hseats.heap hcount hcall
  refine ⟨pooled, ?_⟩
  unfold Ends
  rw [hstart]
  refine ends_inspectFrom_seeks { table, tuple, pooled } hpool hvolume hseats.registered hsize
    fun other hother => ?_
  have hnumbered := hother.trans (hvolume _ hcount)
  exact (isSome_stored?_page hseats.registered hcount hnumbered).2 hother

variable (hsession : session.Sound) (hfitted : session.pool.Fitted)
  (hseats : session.pool.Seats table layout tuple)
  (h : session.Seeking call table layout tuple made)
include hsession hfitted hseats h

/-- What comes of the next stretch of an insertion. -/
theorem Seeking.yields (hroom : session.pool.HasRoomFor call)
    {result : EStateM.Result Failure Pool Step} (hyields : session.Yields call result) :
    (∀ step pool, result = .ok step pool →
      (∃ operation pooled, step = .ask operation ∧ pool.Seeks call.tx { table, tuple, pooled } layout
        (fun page => session.pool.stored? page = none) operation) ∨
      ∃ tuple, step = .done ⟨.ok .unit, tuple⟩) ∧
    ∀ failure pool, result = .error failure pool →
      (session.pool.outline table.volume).isFile = false ∨
        Budget.start session.pool.locks.policy session.now = .error failure ∨
          ∃ error, failure = .error error ∧ session.pool.Thwarts layout made error := by
  have hsteadies : ∀ {pool}, Evolves .access call.tx session.pool pool →
      session.pool.Steadies call.tx pool :=
    fun hevolves => hevolves.steadies_of_quiet (by simp) hsession.coherent
  have hlast : session.pool.HasRoom table := hroom table (hseats.grown? hcall)
  refine hyields.ends ?_ (fun task hmem htask failure pool _ hbars => ?_)
    (fun task hmem htask hgoal => ?_)
    fun task hmem htask pool ref hevolves houtline hpeek hentitled => ?_
  · obtain ⟨pooled, hends⟩ := ends_start_seeks hcall hsession.coherent hfitted hseats hlast
    refine hends.mono ?_ fun _ _ => .inl
    rintro _ _ ⟨operation, rfl, hseeks⟩
    exact .inl ⟨operation, pooled, rfl, hseeks⟩
  · obtain ⟨pooled, hseeks⟩ := h task hmem htask
    refine .inr ?_
    cases hbars with
    | @refused error hkind => exact .inr ⟨error, rfl, .inl hkind⟩
    | untimed hbudget => exact .inl hbudget
    | absent hstored =>
        have hexists := hseeks.isSome_stored
        rw [hstored] at hexists
        cases hexists
    | crowded resident => exact .inr ⟨.noVictim resident, rfl, .inr (.inl rfl)⟩
  · obtain ⟨pooled, hseeks⟩ := h task hmem htask
    exact absurd hgoal hseeks.goal_ne_lock
  · obtain ⟨pooled, hseeks⟩ := h task hmem htask
    have hsteady := hsteadies hevolves
    have hvolume := (hevolves.hasRoom hsession.coherent hlast).volume
      (hevolves.registered hseats.registered)
    have hends := ends_proceed_seeks { table, tuple, pooled }
      (hevolves.coherent hsession.coherent) hvolume
      (hfitted.congr hevolves.tables_eq hevolves.pageSize_eq) (hseats.congr hevolves.tables_eq)
      hpeek hentitled (hseeks.steadies hsteady)
    refine hends.mono ?_ ?_
    · rintro _ after (⟨operation, rfl, hnext⟩ | hdone)
      · refine .inl ⟨operation, pooled, rfl, hnext.remade fun hblank _ => ?_⟩
        by_contra hstored
        have hkept := hsteady.isSome_stored _ (Option.isSome_iff_ne_none.2 hstored)
        exact Option.isSome_iff_ne_none.1 hkept hblank
      · exact .inr hdone
    · rintro _ _ (hfile | ⟨page, hmade, hfull, rfl⟩)
      · exact .inl (houtline ▸ hfile)
      · have hthwarts : Thwarts pool layout made (.pageFull page) :=
          .inr (.inr ⟨page, hmade, hfull, rfl⟩)
        exact .inr (.inr ⟨_, rfl, hthwarts.congr hevolves.tables_eq
          (hevolves.content_eq (by simp) hsession.coherent)⟩)

/-- Whoever acts, an insertion that is under way is where it should be. -/
theorem Seeking.step (hroom : session.HasRoom event) (hpermits : session.Permits event)
    (hsequential : session.Idle call.tx ∨ event.Steady call.tx) :
    (session.step event).Seeking call table layout tuple fun page => made page ∨
      session.call? event = some call ∧ session.pool.stored? page = none := by
  intro task hmem htask
  have hkept : (∃ old ∈ session.tasks, old.call = task.call ∧ old.operation = task.operation) →
      session.pool.Steadies call.tx (session.step event).pool → ∃ pooled,
        (session.step event).pool.Seeks call.tx { table, tuple, pooled } layout (fun page =>
          made page ∨ session.call? event = some call ∧ session.pool.stored? page = none)
          task.operation := by
    rintro ⟨old, hold, hsame, hoperation⟩ hsteady
    obtain ⟨pooled, hseeks⟩ := h old hold (hsame.trans htask)
    exact ⟨pooled, hoperation ▸ (hseeks.steadies hsteady).remade fun hmade _ => .inl hmade⟩
  cases hmoved : session.call? event with
  | none =>
      obtain ⟨old, hold, hsame, _⟩ := (step_of_call_eq_none hmoved).1 task hmem
      have hbusy : ¬session.Idle call.tx := fun hidle =>
        hidle old hold (congrArg Call.tx (hsame.trans htask))
      have hsteady := hsession.steadies_of_others hroom hpermits (hsequential.resolve_left hbusy)
        fun moved hcall => by cases hmoved.symm.trans hcall
      rw [hmoved] at hkept
      exact hkept ((step_of_call_eq_none hmoved).1 task hmem) hsteady
  | some moved =>
      rw [hmoved] at hkept
      have hothers : task.call.tx ≠ moved.tx →
          session.pool.Steadies call.tx (session.step event).pool := fun hother =>
        (hsession.evolves hroom hpermits hmoved).steadies (htask ▸ hother) hsession.coherent
      cases hsession.stretch hpermits hmoved with
      | waits hevolves htasks =>
          exact hkept (htasks task hmem) (hevolves.steadies_of_quiet (by simp) hsession.coherent)
      | asks hyields hpool htasks =>
          rcases htasks task hmem with ⟨hsame, rfl⟩ | ⟨hother, hold⟩
          · obtain rfl : call = moved := htask.symm.trans hsame
            rcases (h.yields hcall hsession hfitted hseats (hroom call hmoved) hyields).1 _ _ rfl with
              ⟨operation, pooled, heq, hseeks⟩ | ⟨_, heq⟩
            · cases heq
              exact ⟨pooled, (hseeks.steadies hpool.steadies).remade fun hblank _ =>
                .inr ⟨rfl, hblank⟩⟩
            · cases heq
          · exact hkept hold (hothers hother)
      | ends _ _ htasks =>
          obtain ⟨hother, hold⟩ := htasks task hmem
          exact hkept hold (hothers hother)

end Calls

/-- Over a whole run, with all that it has made known. -/
theorem Follows.seeking (h : first.Follows events) (hfirst : first.Sound)
    (hfitted : first.pool.Fitted) (hseats : first.pool.Seats table layout tuple)
    (hcall : call = .insertInto call.tx table tuple ∨ call = .insert call.tx table.id tuple)
    (hidle : first.Idle call.tx) (hsequential : first.Sequential call.tx events) :
    (first.run events).Seeking call table layout tuple (first.Appended call · events) := by
  induction events using List.reverseRecOn with
  | nil => exact fun task hmem htask => absurd (congrArg Call.tx htask) (hidle task hmem)
  | append_singleton events event ih =>
      obtain ⟨hevents, hroom, hpermits, _⟩ := follows_append.1 h
      obtain ⟨hbefore, hevent, _⟩ := sequential_append.1 hsequential
      have hsound : (first.run events).Sound := hevents.induction (motive := Session.Sound) hfirst
        fun hsound hroom hpermits => (hsound.step hroom hpermits).1
      have hstep := (ih hevents hbefore).step hcall hsound (hevents.fitted hfirst hfitted)
        (hseats.congr (hevents.tables_eq hfirst)) hroom hpermits hevent
      intro task hmem htask
      have hrun : first.run (events ++ [event]) = (first.run events).step event := run_append ..
      rw [hrun] at hmem ⊢
      obtain ⟨pooled, hseeks⟩ := hstep task hmem htask
      refine ⟨pooled, hseeks.remade fun hmade hrequest => ?_⟩
      have hasks : (first.run (events ++ [event])).AsksFor call task.operation.request.page :=
        hrun ▸ ⟨task, hmem, htask, hrequest⟩
      rcases hmade with hmade | ⟨hmoved, hblank⟩
      · exact .waits hmade hasks
      · exact .made hmoved hblank (hrun ▸ hseeks.isSome_stored) hasks

/-- **Insertions find room.** Whatever other transactions do between its lock requests, an insertion
into a heap table puts its tuple there, or its transaction has to abort, or the cache has no room for
a page. The one exception is a page that the insertion has made because all others were full: while
it has been waiting for the lock of that page, others have filled it. A heap table has fewer than
2 ^ 32 pages whenever an insertion into it goes on. -/
theorem insertion_finds_room (hready : pool.Ready) (hfitted : pool.Fitted)
    (hseats : pool.Seats table layout tuple) {now id : Nat} {outcome : Outcome}
    (h : (ofPool pool now).Follows (events ++ [event]))
    (hcall : call = .insertInto tx table tuple ∨ call = .insert tx table.id tuple)
    (hsequential : (ofPool pool now).Sequential tx events) :
    let session := (ofPool pool now).run events
    (session.pool.outline table.volume).isFile = true →
      (∃ budget, Budget.start session.pool.locks.policy session.now = .ok budget) →
        (session.step event).log = .call id call outcome :: session.log →
          outcome.result = .ok .unit ∨ ∃ error, outcome.result = .error (.error error) ∧
            session.pool.Thwarts layout ((ofPool pool now).Appended call · events) error := by
  intro session hfile htimed hlog
  obtain rfl : call.tx = tx := by rcases hcall with rfl | rfl <;> rfl
  obtain ⟨hevents, hroom, hpermits, _⟩ := follows_append.1 h
  have hfirst : (ofPool pool now).Sound := .ofPool hready now
  have hsound : session.Sound := hevents.sound hready
  have hfits : session.pool.Fitted := hevents.fitted hfirst hfitted
  have hheld : session.pool.Seats table layout tuple := hseats.congr (hevents.tables_eq hfirst)
  have hseeking :
      session.Seeking call table layout tuple ((ofPool pool now).Appended call · events) :=
    hevents.seeking hfirst hfitted hseats hcall (fun _ hmem => by cases hmem) hsequential
  cases hmoved : session.call? event with
  | none =>
      rcases (step_of_call_eq_none hmoved).2 with hsame | ⟨_, _, _, hcommand⟩
      · exact absurd (hsame.symm.trans hlog).symm (List.cons_ne_self _ _)
      · cases hcommand.symm.trans hlog
  | some moved =>
      cases hsound.stretch hpermits hmoved with
      | waits _ _ hsame | asks _ _ _ hsame =>
          exact absurd (hsame.symm.trans hlog).symm (List.cons_ne_self _ _)
      | ends hyields _ _ hended =>
          cases hended.symm.trans hlog
          rcases hyields with hdone | ⟨failure, hfailed, herror⟩
          · have hyield := hseeking.yields hcall hsound hfits hheld (hroom call hmoved) hdone
            rcases hyield.1 _ _ rfl with ⟨_, _, heq, _⟩ | ⟨_, heq⟩
            · cases heq
            · cases heq
              exact .inl rfl
          · have hyield := hseeking.yields hcall hsound hfits hheld (hroom call hmoved) herror
            rcases hyield.2 _ _ rfl with hmemory | hbudget | ⟨error, rfl, hthwarts⟩
            · cases hfile.symm.trans hmemory
            · obtain ⟨budget, hbudget'⟩ := htimed
              cases hbudget.symm.trans hbudget'
            · exact .inr ⟨error, hfailed, hthwarts⟩

/-- Somebody locks the first page of an empty table before it exists. An insertion makes the page and
waits for its lock, and meanwhile the holder of the lock fills the page and commits. -/
def overtaking : List Event :=
  [.start 0 (.get 2 ⟨0, 0⟩ .exclusive), .evaluate 0, .start 1 (.insert 1 0 (.ofCells [7])),
    .evaluate 1, .start 2 (.insert 2 0 (.ofCells [8])), .evaluate 2, .evaluate 2,
    .command (.finish .commit 2)]

theorem seats_narrow (cell : Cell) :
    Pool.narrow.Seats .narrow { schema := { fields := 1 }, pageSize := 5 } (.ofCells [cell]) :=
  ⟨rfl, rfl, by decide, rfl⟩

theorem insertion_finds_room_overtaking :
    let session := (ofPool .narrow 0).run overtaking
    let outcome : Outcome := ⟨.error (.error (.pageFull ⟨0, 0⟩)), some (.ofCells [7])⟩
    (session.step (.wake 1 false 0)).log =
        .call 1 (.insert 1 0 (.ofCells [7])) outcome :: session.log ∧
      (outcome.result = .ok .unit ∨ ∃ error, outcome.result = .error (.error error) ∧
        session.pool.Thwarts { schema := { fields := 1 }, pageSize := 5 }
          ((ofPool .narrow 0).Appended (.insert 1 0 (.ofCells [7])) · overtaking) error) :=
  have hlog : (((ofPool .narrow 0).run overtaking).step (.wake 1 false 0)).log =
      .call 1 (.insert 1 0 (.ofCells [7]))
        ⟨.error (.error (.pageFull ⟨0, 0⟩)), some (.ofCells [7])⟩ ::
          ((ofPool .narrow 0).run overtaking).log := by cbv
  ⟨hlog, insertion_finds_room Pool.narrow_ready (by decide) (seats_narrow 7) (by decide_cbv)
    (.inr rfl) (by decide_cbv) (by decide_cbv) ⟨_, by cbv⟩ hlog⟩

/-- The insertion fails for want of a slot. -/
theorem insertion_overtaken :
    Pool.narrow.Seats .narrow { schema := { fields := 1 }, pageSize := 5 } (.ofCells [7]) ∧
      (ofPool .narrow 0).Follows (overtaking ++ [.wake 1 false 0]) ∧
      (ofPool .narrow 0).Sequential 1 (overtaking ++ [.wake 1 false 0]) ∧
      ((ofPool .narrow 0).run (overtaking ++ [.wake 1 false 0])).outcome? 1 =
        some ⟨.error (.error (.pageFull ⟨0, 0⟩)), some (.ofCells [7])⟩ ∧
      (Error.pageFull ⟨0, 0⟩).kind = .storage :=
  ⟨seats_narrow 7, by decide_cbv, by decide_cbv, by cbv, rfl⟩

end Session

end PagePool
