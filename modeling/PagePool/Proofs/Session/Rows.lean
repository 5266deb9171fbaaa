import PagePool.Proofs.Session.Active
import PagePool.Proofs.Session.Register
import PagePool.Proofs.Session.Scan
import PagePool.Proofs.Session.Serial

/-!
# The tuples that transactions leave

When all transactions have ended, storage has the tuples from before the run with the insertions and
deletions of those that have committed, in the order of their commits. Each of these could be made:
nothing was inserted where a tuple was, and nothing was deleted where none was.
-/

namespace PagePool

open LockRecord Standing Pool

/-- An event of transactions that change pages by insertions and deletions of tuples, through the
pool and on heap tables. -/
def Event.Deals (pool : Pool) : Event → Prop
  | .start _ call => pool.Deals call
  | .command (.write ..) => False
  | _ => True

instance (pool : Pool) : (event : Event) → Decidable (event.Deals pool)
  | .start _ call => inferInstanceAs (Decidable (pool.Deals call))
  | .evaluate _ | .wake .. | .load _ => inferInstanceAs (Decidable True)
  | .command (.write ..) => inferInstanceAs (Decidable False)
  | .command (.read _) | .command (.mark ..) | .command (.flushPage _)
  | .command (.flushTransaction _) | .command .flushAll | .command (.discardPage _)
  | .command (.release ..) | .command (.completeLocks _) | .command (.finish ..) =>
      inferInstanceAs (Decidable True)

/-- A slot is filled, freed and filled again. In the meantime one transaction fills a new page and
another one frees the slot, and both abort. -/
def refilling : List Event :=
  [.start 0 (.insert 1 0 (.ofCells [7])), .evaluate 0, .start 1 (.insert 2 0 (.ofCells [8])),
    .evaluate 1, .command (.finish .commit 1), .wake 1 false 0, .evaluate 1,
    .start 2 (.delete 3 ⟨[7], some ⟨⟨0, 0⟩, 0⟩⟩), .evaluate 2, .command (.finish .abort 3),
    .start 3 (.delete 4 ⟨[7], some ⟨⟨0, 0⟩, 0⟩⟩), .evaluate 3,
    .start 4 (.insert 4 0 (.ofCells [9])), .evaluate 4, .evaluate 4,
    .command (.finish .abort 2), .command (.finish .commit 4)]

section Pools

variable {pool before after : Pool} {tx : TxId} {edit? : Option Edit}

theorem Pool.Alike.shownRows_eq (h : before.Alike after) : after.shownRows = before.shownRows := by
  obtain ⟨locks, _, rfl⟩ := h
  rfl

theorem Pool.Makes.alike {middle : Pool} (h : before.Makes tx edit? middle)
    (halike : middle.Alike after) : before.Makes tx edit? after := by
  cases edit? with
  | none => exact halike.shownRows_eq.trans h
  | some edit =>
      refine ⟨?_, ?_⟩
      · rw [halike.standing_eq]
        exact h.written
      · rw [halike.shownRows_eq]
        exact h.applied

/-- While no page is locked, storage has the tuples that an abort would leave. -/
theorem Pool.Coherent.storedRows_eq (h : pool.Coherent) (hfitted : pool.Fitted)
    (hfree : ∀ id owner, ¬OwnedBy (pool.locks.table.records id) owner) :
    pool.storedRows = pool.baseRows := by
  funext rid
  unfold storedRows baseRows rowsOf
  cases hlayout : pool.layout? rid.page.table with
  | none => rfl
  | some layout =>
      simp only [Option.bind_some]
      cases hstored : pool.stored? rid.page with
      | none =>
          have hbase : pool.base rid.page = Bytes.zeros layout.pageSize := by
            rw [hfitted.pageSize_eq hlayout]
            exact base_of_stored_none (h.coherent rid.page) hstored
          rw [hbase, Layout.row?_zeros]
          rfl
      | some data =>
          rw [h.base_eq_stored (hfree rid.page) hstored]
          rfl

end Pools

namespace Session

/-- The register tells of the run, and every call goes on to make its edit. -/
structure Accounts (first : Pool) (session : Session) : Prop where
  tables_eq : session.pool.tables = first.tables
  fitted : session.pool.Fitted
  tasks : ∀ task ∈ session.tasks, first.Deals task.call ∧ task.operation.Deals first task.call
  tells : (Entry.register session.log).Tells first session.pool

variable {first : Pool} {session : Session} {event : Event} {call : Call}

theorem Accounts.deals_of_call (h : session.Accounts first) (hevent : event.Deals first)
    (hcall : session.call? event = some call) : first.Deals call := by
  rcases started_or_task hcall with ⟨id, rfl⟩ | ⟨task, hmem, rfl⟩
  · exact hevent
  · exact (h.tasks task hmem).1

theorem Accounts.yields (h : session.Accounts first) (hsession : session.Sound)
    (hroom : session.pool.HasRoomFor call) (hdeals : first.Deals call)
    {result : EStateM.Result Failure Pool Step} (hyields : session.Yields call result) :
    (∀ step pool, result = .ok step pool → step.Deals session.pool pool call) ∧
      ∀ failure pool, result = .error failure pool → pool.shownRows = session.pool.shownRows := by
  have hquiet : ∀ {pool}, Evolves .access call.tx session.pool pool →
      pool.shownRows = session.pool.shownRows :=
    fun hevolves => hevolves.shownRows_eq (by simp) hsession.coherent
  refine hyields.ends (ends_start_deals hsession.coherent (hdeals.congr h.tables_eq) hroom)
    (fun _ _ _ _ _ hevolves _ => hquiet hevolves) (fun task hmem hcall hgoal pool hevolves => ?_)
    fun task hmem hcall pool ref hevolves _ hpeek hentitled => ?_
  · subst hcall
    have hoperation := (h.tasks task hmem).2
    exact Step.deals_of_access (hoperation.deed_of_lock hdeals hgoal) (hquiet hevolves)
  · subst hcall
    -- what has happened since the call was moved on is a grant and a load, which change no row
    have htables := hevolves.tables_eq.trans h.tables_eq
    have hfitted := h.fitted.congr hevolves.tables_eq hevolves.pageSize_eq
    have hoperation := (h.tasks task hmem).2.congr htables
    refine (ends_proceed_deals (hevolves.coherent hsession.coherent) hfitted (hdeals.congr htables)
      hentitled hoperation hpeek (hevolves.hasRoomFor hsession.coherent hroom)).mono ?_ ?_
    · exact fun _ _ hstep => hstep.congr (hquiet hevolves)
    · exact fun _ _ hshown => hshown.trans (hquiet hevolves)

section Step

variable (h : session.Accounts first) (hsession : session.Sound) (hroom : session.HasRoom event)
  (hpermits : session.Permits event)
include h hsession hroom hpermits

theorem Accounts.advance (hcall : session.call? event = some call) (hdeals : first.Deals call) :
    (Entry.register (session.step event).log).Tells first (session.step event).pool ∧
      ∀ task ∈ (session.step event).tasks,
        first.Deals task.call ∧ task.operation.Deals first task.call := by
  have hevolves := hsession.evolves hroom hpermits hcall
  have hcoherent := hsession.coherent
  have hplace := hroom call hcall
  have hkept : ∀ {task : Task}, (∃ old ∈ session.tasks,
      old.call = task.call ∧ old.operation = task.operation) →
      first.Deals task.call ∧ task.operation.Deals first task.call := by
    rintro task ⟨old, hold, hsame, hoperation⟩
    rw [← hsame, ← hoperation]
    exact h.tasks old hold
  cases hsession.stretch hpermits hcall with
  | waits hmoves htasks hlog =>
      rw [hlog]
      exact ⟨h.tells.evolves hmoves hcoherent (hmoves.shownRows_eq (by simp) hcoherent),
        fun task hmem => hkept (htasks task hmem)⟩
  | asks hyielded hpool htasks hlog =>
      obtain ⟨hoperation, hshown⟩ := (h.yields hsession hplace hdeals hyielded).1 _ _ rfl
      rw [hlog]
      refine ⟨h.tells.evolves hevolves hcoherent (hpool.shownRows_eq.trans hshown), ?_⟩
      intro task hmem
      rcases htasks task hmem with ⟨rfl, rfl⟩ | ⟨_, hold⟩
      · have htables := hpool.tables_eq.symm.trans (hevolves.tables_eq.trans h.tables_eq)
        exact ⟨hdeals, hoperation.congr htables.symm⟩
      · exact hkept hold
  | ends hyielded hpool htasks hlog =>
      rw [hlog]
      refine ⟨h.tells.makes hevolves hcoherent ?_, fun task hmem => hkept (htasks task hmem).2⟩
      rcases hyielded with hdone | ⟨failure, hfailed, herror⟩
      · exact Makes.alike ((h.yields hsession hplace hdeals hdone).1 _ _ rfl) hpool
      · rw [Call.edit?_of_error hfailed]
        exact hpool.shownRows_eq.trans ((h.yields hsession hplace hdeals herror).2 _ _ rfl)

theorem Accounts.command (hcall : session.call? event = none) (hevent : event.Deals first) :
    (Entry.register (session.step event).log).Tells first (session.step event).pool := by
  have hcoherent := hsession.coherent
  obtain ⟨_, hlog⟩ := step_of_call_eq_none hcall
  have hregister : (∀ ending tx, event ≠ .command (.finish ending tx)) →
      Entry.register (session.step event).log = Entry.register session.log := by
    intro hgoes
    rcases hlog with hlog | ⟨command, result, rfl, hlog⟩
    · rw [hlog]
    · rw [hlog]
      cases command with
      | finish ending tx => exact absurd rfl (hgoes ending tx)
      | _ => rfl
  have hserved : session.actor? event = none →
      (Entry.register (session.step event).log).Tells first (session.step event).pool := by
    intro hactor
    have hserves := hsession.serves hroom hpermits hactor 0
    have hgoes : ∀ ending tx, event ≠ .command (.finish ending tx) := by
      rintro ending tx rfl
      cases hactor
    rw [hregister hgoes]
    exact h.tells.evolves hserves hcoherent (hserves.shownRows_eq (by simp) hcoherent)
  cases event with
  | command command =>
      cases command with
      | read | flushPage | flushTransaction | flushAll => exact hserved rfl
      | mark | discardPage | completeLocks => cases hpermits
      | write => cases hevent
      | release actor page =>
          rw [hregister (by simp)]
          exact h.tells.release (hsession.releases hpermits) hpermits.2
      | finish ending actor =>
          obtain ⟨hlog, hfinishes⟩ := hsession.finishes hroom hpermits
          rw [hlog]
          exact h.tells.finish hcoherent hfinishes
  | start => cases hcall
  | evaluate | wake | load => exact hserved (Option.map_eq_none_iff.2 hcall)

theorem Accounts.step (hevent : event.Deals first) : (session.step event).Accounts first := by
  have heffect := (hsession.step hroom hpermits).2
  have hboth : (Entry.register (session.step event).log).Tells first (session.step event).pool ∧
      ∀ task ∈ (session.step event).tasks,
        first.Deals task.call ∧ task.operation.Deals first task.call := by
    cases hcall : session.call? event with
    | some call =>
        exact h.advance hsession hroom hpermits hcall (h.deals_of_call hevent hcall)
    | none =>
        refine ⟨h.command hsession hroom hpermits hcall hevent, fun task hmem => ?_⟩
        obtain ⟨old, hold, hsame, hoperation⟩ := (step_of_call_eq_none hcall).1 task hmem
        rw [← hsame, ← hoperation]
        exact h.tasks old hold
  exact ⟨heffect.tables_eq.trans h.tables_eq, h.fitted.congr heffect.tables_eq heffect.pageSize_eq,
    hboth.2, hboth.1⟩

end Step

theorem Accounts.start {pool : Pool} (hready : pool.Ready) (hfitted : pool.Fitted) (now : Nat) :
    (ofPool pool now).Accounts pool where
  tables_eq := rfl
  fitted := hfitted
  tasks task hmem := by cases hmem
  tells :=
    have hsession := Sound.ofPool hready now
    have hfree : ∀ id owner, ¬OwnedBy (pool.locks.table.records id) owner := by
      intro id owner howner
      cases (Runs.start hready now).locks howner.heldBy
    { committed := congrArg some (hsession.coherent.storedRows_eq hfitted hfree)
      running := fun tx => .nil fun id hwritten => hfree id tx hwritten.1 }

theorem Follows.accounts {events : List Event} (h : session.Follows events)
    (hsession : session.Sound) (haccounts : session.Accounts first)
    (hevents : ∀ event ∈ events, event.Deals first) : (session.run events).Accounts first := by
  induction events generalizing session with
  | nil => exact haccounts
  | cons event rest ih =>
      obtain ⟨hroom, hpermits, hrest⟩ := h
      refine ih hrest (hsession.step hroom hpermits).1 ?_ fun other hmem =>
        hevents other (List.mem_cons_of_mem event hmem)
      exact haccounts.step hsession hroom hpermits (hevents event List.mem_cons_self)

variable {pool : Pool} {now : Nat} {events : List Event}

/-- **No lost and no duplicated tuple.** However transactions that insert and delete tuples
interleave, once all have ended storage has the tuples from before with the insertions and deletions
of those that have committed, in the order of their commits. All of these can be made in this order,
so no slot is filled twice without being cleared in between, or cleared twice without being filled.
The listings of the pages show the stored tuples, each of them once. A heap table has fewer than
2 ^ 32 pages whenever an insertion into it goes on; else an appended page can wipe out tuples. -/
theorem rows_of_committed (hready : pool.Ready) (hfitted : pool.Fitted)
    (h : (ofPool pool now).Follows events) (hevents : ∀ event ∈ events, event.Deals pool)
    (hended : ∀ tx, Event.activateAll events (fun _ => false) tx = false) :
    let after := (ofPool pool now).run events
    let committed := (Entry.register after.log).committed
    pool.storedRows.replay committed = some after.pool.storedRows ∧
      (∀ {first between rest : List Edit} {edit later : Edit},
        committed = first ++ edit :: (between ++ later :: rest) → later.rid = edit.rid →
          later.cells?.isSome = edit.cells?.isSome → ∃ other ∈ between,
            other.rid = edit.rid ∧ other.cells?.isSome ≠ edit.cells?.isSome) ∧
      ∀ {id : PageId} {layout : Layout} {data : Bytes}, after.pool.layout? id.table = some layout →
        after.pool.stored? id = some data →
          ∃ tuples, layout.tuples (Page.load id data) = .ok tuples ∧
            (tuples.map Tuple.rid).Nodup ∧ ∀ tuple, tuple ∈ tuples ↔ ∃ rid cells,
              rid.page = id ∧ after.pool.storedRows rid = some cells ∧
                tuple = { cells, rid := some rid } := by
  intro after committed
  have hstart := Sound.ofPool hready now
  have hcoherent := (h.sound hready).coherent
  have haccounts := h.accounts hstart (.start hready hfitted now) hevents
  have hfree : ∀ id owner, ¬OwnedBy (after.pool.locks.table.records id) owner := by
    intro id owner howner
    have hactive := (h.runs hstart (.start hready now)).locks howner.heldBy
    exact Bool.false_ne_true ((hended owner).symm.trans hactive)
  have hreplay : pool.storedRows.replay committed = some after.pool.storedRows := by
    rw [hcoherent.storedRows_eq haccounts.fitted hfree]
    exact haccounts.tells.committed
  refine ⟨hreplay, fun hcommitted hrid hkind => ?_, fun hlayout hstored =>
    hcoherent.tuples_stored haccounts.fitted hlayout hstored⟩
  rw [hcommitted] at hreplay
  exact Rows.exists_between hreplay hrid hkind

theorem rows_of_committed_refilling :
    let after := (ofPool .narrow 0).run refilling
    (Entry.register after.log).committed =
        [.insert ⟨⟨0, 0⟩, 0⟩ [7], .delete ⟨⟨0, 0⟩, 0⟩, .insert ⟨⟨0, 0⟩, 0⟩ [9]] ∧
      Pool.narrow.storedRows.replay (Entry.register after.log).committed =
        some after.pool.storedRows ∧
      after.pool.storedRows ⟨⟨0, 0⟩, 0⟩ = some [9] ∧ after.pool.storedRows ⟨⟨0, 1⟩, 0⟩ = none := by
  refine ⟨by decide_cbv, ?_, by decide_cbv, by decide_cbv⟩
  exact (rows_of_committed Pool.narrow_ready (by decide) (by decide_cbv) (by decide_cbv)
    (Event.activateAll_eq_false (by decide_cbv))).1

end Session

end PagePool
