import Mathlib
import PagePool.Proofs.Layout
import PagePool.Proofs.Session.Replay
import PagePool.Proofs.Session.Stretch

/-!
# Scanning a table again

A transaction keeps the pages that it has scanned locked, so nobody else changes them. Nothing locks
the number of pages: others append pages to the table, and a later scan shows these as well.
-/

namespace PagePool

open LockRecord Standing Pool

/-- The transaction changes no page at this event and gives none back. -/
def Event.Steady (tx : TxId) : Event → Prop
  | .start _ call => call.tx = tx → call.deed = .access
  | .command (.write _ other ..) | .command (.mark _ other _) | .command (.release other _)
  | .command (.completeLocks other) | .command (.finish _ other) => other ≠ tx
  | _ => True

instance (tx : TxId) : (event : Event) → Decidable (event.Steady tx)
  | .start _ call => inferInstanceAs (Decidable (call.tx = tx → call.deed = .access))
  | .command (.write _ other ..) | .command (.mark _ other _) | .command (.release other _)
  | .command (.completeLocks other) | .command (.finish _ other) =>
      inferInstanceAs (Decidable (other ≠ tx))
  | .evaluate _ | .wake .. | .load _ => inferInstanceAs (Decidable True)
  | .command (.read _) | .command (.flushPage _) | .command (.flushTransaction _)
  | .command .flushAll | .command (.discardPage _) => inferInstanceAs (Decidable True)

/-- An empty heap table whose pages have room for one tuple of one cell. -/
def Table.narrow : Table where
  id := 0
  volume := 0
  kind := .heap { schema := { fields := 1 }, pageSize := 5 }

def Pool.narrow : Pool where
  pageSize := 5
  cache := { capacity := 2, entries := [] }
  frames := .empty
  locks := .new .default .plain
  tables := [.narrow]
  volumes := [.ofMedium (.file .empty)]

theorem Pool.narrow_ready : Pool.narrow.Ready where
  empty := rfl
  unlocked _ := rfl
  backed := by decide
  reliable := by
    intro table hmem
    obtain rfl := List.mem_singleton.1 hmem
    exact Volume.reliable_ofFile .empty
  apart := by decide
  strict := by
    intro table hmem
    obtain rfl := List.mem_singleton.1 hmem
    simp [Table.narrow]

/-- A tuple is inserted and committed. -/
def filling : List Event :=
  [.start 0 (.insert 2 0 (.ofCells [7])), .evaluate 0, .command (.finish .commit 2)]

/-- The table is scanned before and after another tuple goes onto a page of its own. -/
def rescanning : List Event :=
  [.start 1 (.scan 1 .narrow), .evaluate 1, .start 2 (.insert 3 0 (.ofCells [8])), .evaluate 2,
    .evaluate 2, .command (.finish .commit 3), .start 3 (.scan 1 .narrow), .evaluate 3,
    .evaluate 3]

namespace Pool

/-- The pages that a transaction has locked stay as they are, and no page gets lost. -/
structure Steadies (tx : TxId) (before after : Pool) : Prop where
  pageSize_eq : after.pageSize = before.pageSize
  tables_eq : after.tables = before.tables
  heldBy : ∀ id, HeldBy (before.locks.table.records id) tx →
    HeldBy (after.locks.table.records id) tx
  content_eq : ∀ id, HeldBy (before.locks.table.records id) tx →
    after.content id = before.content id
  isSome_stored : ∀ id, (before.stored? id).isSome → (after.stored? id).isSome

/-- What a scan shows of a page. -/
def tuplesOn (pool : Pool) (layout : Layout) (page : PageId) : List Tuple :=
  (layout.tuples (Page.load page (pool.content page))).toOption.getD []

/-- What a scan shows of as many pages of a table as are counted. -/
def listing (pool : Pool) (table : Table) (layout : Layout) (count : Nat) : List Tuple :=
  (List.range count).flatMap fun index => pool.tuplesOn layout (table.page index)

/-- A transaction has locked as many pages of a table as are counted, on its way to a bound. The
pages behind the bound did not exist at first. -/
structure Covers (first pool : Pool) (tx : TxId) (table : Table) (count bound : Nat) : Prop where
  heldBy : ∀ index < count, HeldBy (pool.locks.table.records (table.page index)) tx
  stored : ∀ index < bound, (pool.stored? (table.page index)).isSome
  absent : ∀ index, bound ≤ index → index < UInt32.size →
    first.stored? (table.page index) = none

/-- Where a scan is after a stretch. Nobody who has scanned the table before went further than this
scan goes. -/
def Scans (first pool : Pool) (tx : TxId) (table : Table) (layout : Layout) (bounds : List Nat) :
    Step → Prop
  | .ask operation => ∃ index bound, index < bound ∧ Covers first pool tx table index bound ∧
      (∀ sooner ∈ bounds, sooner ≤ bound) ∧ operation =
        { request := { tx, page := table.page index, mode := .shared }
          goal := .scan table layout index bound (pool.listing table layout index) }
  | .done outcome => ∃ bound, Covers first pool tx table bound bound ∧
      (∀ sooner ∈ bounds, sooner ≤ bound) ∧
      outcome.result = .ok (.tuples (pool.listing table layout bound))

variable {first before middle after pool : Pool} {tx actor : TxId} {deed : Deed} {page : PageId}
  {table : Table} {layout : Layout} {count bound : Nat} {bounds : List Nat} {step : Step}

namespace Steadies

theorem refl (tx : TxId) (pool : Pool) : pool.Steadies tx pool :=
  ⟨rfl, rfl, fun _ h => h, fun _ _ => rfl, fun _ h => h⟩

theorem trans (h : before.Steadies tx middle) (h' : middle.Steadies tx after) :
    before.Steadies tx after where
  pageSize_eq := h'.pageSize_eq.trans h.pageSize_eq
  tables_eq := h'.tables_eq.trans h.tables_eq
  heldBy id hheld := h'.heldBy id (h.heldBy id hheld)
  content_eq id hheld := (h'.content_eq id (h.heldBy id hheld)).trans (h.content_eq id hheld)
  isSome_stored id hstored := h'.isSome_stored id (h.isSome_stored id hstored)

end Steadies

theorem Evolves.steadies_of_quiet (h : Evolves deed actor before after) (hquiet : deed ≠ .change)
    (hbefore : before.Coherent) : before.Steadies tx after where
  pageSize_eq := h.pageSize_eq
  tables_eq := h.tables_eq
  heldBy id hheld := (h.moves id).heldBy hquiet hheld
  content_eq id _ := congrFun (h.content_eq hquiet hbefore) id
  isSome_stored id hstored := (h.moves id).isSome_stored hstored

theorem Evolves.steadies (h : Evolves deed actor before after) (hother : tx ≠ actor)
    (hbefore : before.Coherent) : before.Steadies tx after where
  pageSize_eq := h.pageSize_eq
  tables_eq := h.tables_eq
  heldBy id hheld := ((h.moves id).heldBy_iff hother).2 hheld
  content_eq id hheld := by
    rw [content, content, h.pageSize_eq]
    rcases (h.moves id).content_eq_or (hbefore.coherent id) with hsame | ⟨_, howner, _⟩
    · exact hsame
    · have hheld' := ((h.moves id).heldBy_iff hother).2 hheld
      have hcompatible := ((h.coherent hbefore).coherent id).compatible
      exact absurd (hcompatible.heldBy_eq howner hheld') hother
  isSome_stored id hstored := (h.moves id).isSome_stored hstored

theorem Releases.steadies (h : before.Releases actor page after) (hother : tx ≠ actor) :
    before.Steadies tx after where
  pageSize_eq := h.pageSize_eq
  tables_eq := h.tables_eq
  heldBy id := ((h.spares hother).heldBy_iff id).2
  content_eq id _ := congrFun h.content_eq id
  isSome_stored id hstored := by rwa [h.stored?_eq]

theorem Finishes.steadies {ending : Ending} (h : before.Finishes ending actor after)
    (hother : tx ≠ actor) (hbefore : before.Coherent) : before.Steadies tx after where
  pageSize_eq := h.pageSize_eq
  tables_eq := h.tables_eq
  heldBy id hheld := (h.heldBy_iff id).2 ⟨hheld, hother⟩
  content_eq id hheld := (h.same_of_held hbefore hother hheld).2.1
  isSome_stored id hstored := by rwa [h.isSome_stored_eq hbefore]

theorem Alike.steadies (h : before.Alike after) : before.Steadies tx after := by
  obtain ⟨locks, htable, rfl⟩ := h
  refine ⟨rfl, rfl, fun id hheld => ?_, fun _ _ => rfl, fun _ hstored => hstored⟩
  rwa [htable]

theorem Steadies.hasRoom (h : before.Steadies tx after) (hroom : after.HasRoom table) :
    before.HasRoom table := by
  by_contra hstored
  have hstored' := h.isSome_stored _ (Option.isSome_iff_ne_none.2 hstored)
  rw [hroom] at hstored'
  cases hstored'

section Listing

theorem listing_succ (pool : Pool) (table : Table) (layout : Layout) (count : Nat) :
    pool.listing table layout (count + 1) =
      pool.listing table layout count ++ pool.tuplesOn layout (table.page count) := by
  simp [listing, List.range_succ]

theorem exists_rid_of_mem {tuple : Tuple} (hmem : tuple ∈ pool.tuplesOn layout page) :
    ∃ rid, tuple.rid = some rid ∧ rid.page = page := by
  unfold tuplesOn at hmem
  cases htuples : layout.tuples (Page.load page (pool.content page)) with
  | error failure =>
      rw [htuples] at hmem
      cases hmem
  | ok tuples =>
      rw [htuples] at hmem
      exact Layout.rid_of_mem_tuples htuples hmem

/-- Going further shows more, and what is new is on the pages further on. -/
theorem listing_of_le (pool : Pool) (table : Table) (layout : Layout) {sooner later : Nat}
    (h : sooner ≤ later) :
    ∃ extra, pool.listing table layout later = pool.listing table layout sooner ++ extra ∧
      ∀ tuple ∈ extra, ∃ rid, tuple.rid = some rid ∧
        ∃ index, sooner ≤ index ∧ index < later ∧ rid.page = table.page index := by
  induction h with
  | refl => exact ⟨[], (List.append_nil _).symm, fun _ hmem => by cases hmem⟩
  | @step later hle ih =>
      obtain ⟨extra, hextra, hpages⟩ := ih
      refine ⟨extra ++ pool.tuplesOn layout (table.page later), ?_, fun tuple hmem => ?_⟩
      · rw [listing_succ, hextra, List.append_assoc]
      · rcases List.mem_append.1 hmem with hold | hnew
        · obtain ⟨rid, hrid, index, hsooner, hlater, hpage⟩ := hpages tuple hold
          exact ⟨rid, hrid, index, hsooner, Nat.lt_succ_of_lt hlater, hpage⟩
        · obtain ⟨rid, hrid, hpage⟩ := exists_rid_of_mem hnew
          exact ⟨rid, hrid, later, hle, Nat.lt_succ_self later, hpage⟩

end Listing

namespace Covers

theorem steadies (h : Covers first before tx table count bound) (hsteady : before.Steadies tx after) :
    Covers first after tx table count bound where
  heldBy index hindex := hsteady.heldBy _ (h.heldBy index hindex)
  stored index hindex := hsteady.isSome_stored _ (h.stored index hindex)
  absent := h.absent

theorem listing_eq (h : Covers first before tx table count bound)
    (hsteady : before.Steadies tx after) (layout : Layout) :
    after.listing table layout count = before.listing table layout count := by
  refine List.flatMap_congr fun index hmem => ?_
  rw [tuplesOn, hsteady.content_eq _ (h.heldBy index (List.mem_range.1 hmem))]
  rfl

end Covers

theorem Scans.steadies (h : Scans first before tx table layout bounds step)
    (hsteady : before.Steadies tx after) : Scans first after tx table layout bounds step := by
  cases step with
  | ask operation =>
      obtain ⟨index, bound, hindex, hcovers, hbounds, hoperation⟩ := h
      refine ⟨index, bound, hindex, hcovers.steadies hsteady, hbounds, ?_⟩
      rw [hcovers.listing_eq hsteady, hoperation]
  | done outcome =>
      obtain ⟨bound, hcovers, hbounds, hresult⟩ := h
      refine ⟨bound, hcovers.steadies hsteady, hbounds, ?_⟩
      rw [hcovers.listing_eq hsteady, hresult]

/-- A scan asks for the page after those that it has read, or has read them all. -/
theorem scans_scanFrom (hle : count ≤ bound) (hcovers : Covers first pool tx table count bound)
    (hbounds : ∀ sooner ∈ bounds, sooner ≤ bound) :
    Scans first pool tx table layout bounds
      (scanFrom tx table layout count bound (pool.listing table layout count)) := by
  unfold scanFrom
  split
  · next hlt => exact ⟨count, bound, hlt, hcovers, hbounds, rfl⟩
  · next hend =>
    obtain rfl := Nat.le_antisymm hle (Nat.le_of_not_lt hend)
    exact ⟨count, hcovers, hbounds, rfl⟩

/-- A scan starts out for all pages that there are, and so for those of the scans before. -/
theorem ends_start_scan (htable : pool.Registered table) (hroom : pool.HasRoom table)
    (hlayout : table.layout? = some layout)
    (hkept : ∀ id, (first.stored? id).isSome → (pool.stored? id).isSome)
    (hbounds : ∀ sooner ∈ bounds, Covers first pool tx table sooner sooner) :
    Ends (Call.scan tx table).start pool
      (fun step after => after = pool ∧ Scans first pool tx table layout bounds step)
      (fun _ after => after = pool) := by
  simp only [Call.start, hlayout]
  refine (ends_pageCount table pool).bind ?_ fun _ _ h => h
  rintro count pool ⟨rfl, hcount⟩
  have hlt : count < UInt32.size := hroom.volume htable count hcount
  have hstored : ∀ {index}, index < UInt32.size →
      ((pool.stored? (table.page index)).isSome ↔ index < count) :=
    isSome_stored?_page htable hcount
  refine ⟨rfl, scans_scanFrom (Nat.zero_le count) ⟨fun _ h => absurd h (Nat.not_lt_zero _),
    fun index hindex => (hstored (Nat.lt_trans hindex hlt)).2 hindex, fun index hindex hsize => ?_⟩
    fun sooner hmem => ?_⟩
  · by_contra hexists
    have := (hstored hsize).1 (hkept _ (Option.isSome_iff_ne_none.2 hexists))
    omega
  · by_contra hmore
    have := (hstored hlt).1 ((hbounds sooner hmem).stored count (by omega))
    omega

/-- Over the next page, a scan goes on to the page after it. -/
theorem ends_proceed_scan {ref : PageRef} {index : Nat} (hpool : pool.Coherent)
    (hpeek : pool.cache.peek? (table.page index) = some ref) (hindex : index < bound)
    (hcovers : Covers first pool tx table index bound)
    (hheld : HeldBy (pool.locks.table.records (table.page index)) tx)
    (hbounds : ∀ sooner ∈ bounds, sooner ≤ bound) :
    Ends (Operation.proceed
        { request := { tx, page := table.page index, mode := .shared }
          goal := .scan table layout index bound (pool.listing table layout index) } ref) pool
      (fun step after => after = pool ∧ Scans first pool tx table layout bounds step)
      (fun _ after => after = pool) := by
  refine ends_proceed_iff.2 ⟨fun _ _ => rfl, fun tuples htuples => ⟨rfl, ?_⟩⟩
  have hon : pool.tuplesOn layout (table.page index) = tuples := by
    have hdata : pool.content (table.page index) = (pool.page ref).data :=
      content_of_cached (standing_cached hpeek)
    have hload : layout.tuples (Page.load (table.page index) (pool.content (table.page index))) =
        layout.tuples (pool.page ref) :=
      Layout.tuples_congr (hpool.named hpeek).symm hdata
    rw [tuplesOn, hload, htuples]
    rfl
  rw [← hon, ← listing_succ]
  refine scans_scanFrom hindex ⟨fun other hother => ?_, hcovers.stored, hcovers.absent⟩ hbounds
  rcases Nat.lt_succ_iff_lt_or_eq.1 hother with hbefore | rfl
  · exact hcovers.heldBy other hbefore
  · exact hheld

end Pool

/-- What a scan of a table has shown a transaction. -/
def Entry.tuples? (tx : TxId) (table : Table) : Entry → Option (List Tuple)
  | .call _ (.scan other scanned) ⟨.ok (.tuples tuples), _⟩ =>
      if other = tx ∧ scanned = table then some tuples else none
  | _ => none

theorem Entry.tuples?_of_ne {id : Nat} {call : Call} {outcome : Outcome} {tx : TxId}
    {table : Table} (h : call ≠ .scan tx table) : tuples? tx table (.call id call outcome) = none := by
  unfold tuples?
  split
  · next heq =>
    cases heq
    exact if_neg fun hsame => h (by rw [hsame.1, hsame.2])
  · rfl

namespace Session

/-- What the scans of a table have shown a transaction, the latest first. -/
def scans (session : Session) (tx : TxId) (table : Table) : List (List Tuple) :=
  session.log.filterMap (Entry.tuples? tx table)

/-- The calls that a transaction has under way change no page. -/
def Quiet (session : Session) (tx : TxId) : Prop :=
  ∀ task ∈ session.tasks, task.call.tx = tx → task.call.deed = .access

/-- What has been shown since a first session, by scans with the given bounds, the latest first. -/
structure Showed (first : Session) (tx : TxId) (table : Table) (layout : Layout)
    (bounds : List Nat) (session : Session) : Prop where
  scans_eq : session.scans tx table =
    bounds.map (session.pool.listing table layout) ++ first.scans tx table
  sorted : bounds.Pairwise fun later sooner => sooner ≤ later
  covers : ∀ bound ∈ bounds, Covers first.pool session.pool tx table bound bound
  kept : ∀ id, (first.pool.stored? id).isSome → (session.pool.stored? id).isSome
  registered : session.pool.Registered table

structure Scanned (first : Session) (tx : TxId) (table : Table) (layout : Layout)
    (bounds : List Nat) (session : Session) : Prop
    extends Showed first tx table layout bounds session where
  quiet : session.Quiet tx
  tasks : ∀ task ∈ session.tasks, task.call = .scan tx table →
    Scans first.pool session.pool tx table layout bounds (.ask task.operation)

variable {session after first : Session} {event : Event} {call : Call} {tx : TxId} {table : Table}
  {layout : Layout} {bounds : List Nat}

theorem Quiet.deed (hquiet : session.Quiet tx) (hsteady : event.Steady tx)
    (hcall : session.call? event = some call) (htx : call.tx = tx) : call.deed = .access := by
  rcases started_or_task hcall with ⟨id, rfl⟩ | ⟨task, hmem, rfl⟩
  · exact hsteady htx
  · exact hquiet task hmem htx

theorem call_of_actor (hsteady : event.Steady tx)
    (hactor : session.actor? event = some tx) :
    ∃ call, session.call? event = some call ∧ call.tx = tx := by
  cases event with
  | command command =>
      exfalso
      cases command with
      | write | mark | release | completeLocks | finish => exact hsteady (Option.some.inj hactor)
      | _ => cases hactor
  | _ => exact Option.map_eq_some_iff.1 hactor

/-- Whatever the others do, while the calls of the transaction stay where they are. -/
theorem Sound.steadies_of_others (h : session.Sound) (hroom : session.HasRoom event)
    (hpermits : session.Permits event) (hsteady : event.Steady tx)
    (hothers : ∀ call, session.call? event = some call → call.tx ≠ tx) :
    session.pool.Steadies tx (session.step event).pool := by
  cases (h.step hroom hpermits).2 with
  | finish hevent _ hfinishes =>
      subst hevent
      exact hfinishes.steadies (Ne.symm hsteady) h.coherent
  | release hevent hreleases =>
      subst hevent
      exact hreleases.steadies (Ne.symm hsteady)
  | serve _ hserves => exact (hserves 0).steadies_of_quiet (by simp) h.coherent
  | act _ hactor _ hevolves =>
      refine hevolves.steadies (fun hsame => ?_) h.coherent
      subst hsame
      obtain ⟨call, hcall, htx⟩ := call_of_actor hsteady hactor
      exact hothers call hcall htx

/-- Whatever the others do, and as long as the transaction itself only looks at pages. -/
theorem Sound.steadies (h : session.Sound) (hroom : session.HasRoom event)
    (hpermits : session.Permits event) (hquiet : session.Quiet tx) (hsteady : event.Steady tx) :
    session.pool.Steadies tx (session.step event).pool := by
  by_cases hown : ∃ call, session.call? event = some call ∧ call.tx = tx
  · obtain ⟨call, hcall, htx⟩ := hown
    have hevolves := h.evolves hroom hpermits hcall
    rw [hquiet.deed hsteady hcall htx] at hevolves
    exact hevolves.steadies_of_quiet (by simp) h.coherent
  · exact h.steadies_of_others hroom hpermits hsteady fun call hcall htx => hown ⟨call, hcall, htx⟩

theorem Sound.quiet (h : session.Sound) (hpermits : session.Permits event)
    (hquiet : session.Quiet tx) (hsteady : event.Steady tx) : (session.step event).Quiet tx := by
  have hold : ∀ {task : Task}, (∃ old ∈ session.tasks,
      old.call = task.call ∧ old.operation = task.operation) →
      task.call.tx = tx → task.call.deed = .access := by
    rintro task ⟨old, hold, hcall, _⟩
    rw [← hcall]
    exact hquiet old hold
  cases hcall : session.call? event with
  | none => exact fun task hmem => hold ((step_of_call_eq_none hcall).1 task hmem)
  | some call =>
      intro task hmem
      cases h.stretch hpermits hcall with
      | waits _ htasks => exact hold (htasks task hmem)
      | asks _ _ htasks =>
          rcases htasks task hmem with ⟨hsame, _⟩ | ⟨_, hkept⟩
          · rw [hsame]
            exact hquiet.deed hsteady hcall
          · exact hold hkept
      | ends _ _ htasks => exact hold (htasks task hmem).2

/-- Over a whole run. -/
theorem Follows.steadies {events : List Event} (h : session.Follows events)
    (hsession : session.Sound) (hquiet : session.Quiet tx)
    (hsteady : ∀ event ∈ events, event.Steady tx) :
    session.pool.Steadies tx (session.run events).pool := by
  induction events generalizing session with
  | nil => exact .refl tx session.pool
  | cons event rest ih =>
      obtain ⟨hroom, hpermits, hrest⟩ := h
      have hevent := hsteady event List.mem_cons_self
      have hstep := hsession.steadies hroom hpermits hquiet hevent
      exact hstep.trans (ih hrest (hsession.step hroom hpermits).1
        (hsession.quiet hpermits hquiet hevent) fun other hmem =>
          hsteady other (List.mem_cons_of_mem event hmem))

theorem Showed.steadies (h : Showed first tx table layout bounds session)
    (hsteady : session.pool.Steadies tx after.pool)
    (hscans : after.scans tx table = session.scans tx table) :
    Showed first tx table layout bounds after where
  scans_eq := by
    have hlisting : bounds.map (after.pool.listing table layout) =
        bounds.map (session.pool.listing table layout) :=
      List.map_congr_left fun bound hmem => (h.covers bound hmem).listing_eq hsteady layout
    rw [hscans, h.scans_eq, hlisting]
  sorted := h.sorted
  covers bound hmem := (h.covers bound hmem).steadies hsteady
  kept id hstored := hsteady.isSome_stored id (h.kept id hstored)
  registered := by
    have hregistered := h.registered
    rwa [Registered, table?, hsteady.tables_eq]

/-- One more scan. -/
theorem Showed.scan {bound : Nat} (h : Showed first tx table layout bounds session)
    (hsame : after.pool = session.pool)
    (hscans : after.scans tx table =
      session.pool.listing table layout bound :: session.scans tx table)
    (hcovers : Covers first.pool session.pool tx table bound bound)
    (hbounds : ∀ sooner ∈ bounds, sooner ≤ bound) :
    Showed first tx table layout (bound :: bounds) after where
  scans_eq := by
    rw [hscans, h.scans_eq, hsame]
    rfl
  sorted := List.pairwise_cons.2 ⟨hbounds, h.sorted⟩
  covers other hmem := by
    rw [hsame]
    rcases List.mem_cons.1 hmem with rfl | hmem
    · exact hcovers
    · exact h.covers other hmem
  kept id hstored := hsame ▸ h.kept id hstored
  registered := hsame ▸ h.registered

section Scanned

variable (h : Scanned first tx table layout bounds session)
include h

/-- Events that a scan has no part in. -/
theorem Scanned.steadies (hsteady : session.pool.Steadies tx after.pool)
    (hquiet : after.Quiet tx) (hscans : after.scans tx table = session.scans tx table)
    (htasks : ∀ task ∈ after.tasks, task.call = .scan tx table → ∃ old ∈ session.tasks,
      old.call = task.call ∧ old.operation = task.operation) :
    Scanned first tx table layout bounds after where
  toShowed := h.toShowed.steadies hsteady hscans
  quiet := hquiet
  tasks task hmem hcall := by
    obtain ⟨old, hold, hsame, hoperation⟩ := htasks task hmem hcall
    rw [← hoperation]
    exact (h.tasks old hold (hsame.trans hcall)).steadies hsteady

variable (hsession : session.Sound) (hroom : session.pool.HasRoom table)
  (hlayout : table.layout? = some layout)
include hsession hroom hlayout

/-- What comes of the next stretch of a scan. -/
theorem Scanned.yields {result : EStateM.Result Failure Pool Step}
    (hyields : session.Yields (.scan tx table) result) :
    (∀ step pool, result = .ok step pool → session.pool.Steadies tx pool ∧
      Scans first.pool pool tx table layout bounds step) ∧
    ∀ failure pool, result = .error failure pool → session.pool.Steadies tx pool := by
  have hsteadies : ∀ {pool}, Evolves .access tx session.pool pool →
      session.pool.Steadies tx pool :=
    fun hevolves => hevolves.steadies_of_quiet (by simp) hsession.coherent
  refine hyields.ends ?_ (fun _ _ _ _ _ hevolves _ => hsteadies hevolves)
    (fun task hmem hcall hgoal => ?_) fun task hmem hcall pool ref hevolves _ hpeek hentitled => ?_
  · refine (ends_start_scan h.registered hroom hlayout h.kept h.covers).mono ?_ ?_
    · rintro step _ ⟨rfl, hscans⟩
      exact ⟨.refl tx session.pool, hscans⟩
    · rintro _ _ rfl
      exact .refl tx session.pool
  · obtain ⟨_, _, _, _, _, hoperation⟩ := h.tasks task hmem hcall
    rw [hoperation] at hgoal
    cases hgoal
  · obtain ⟨index, bound, hindex, hcovers, hbounds, hoperation⟩ :=
      (h.tasks task hmem hcall).steadies (hsteadies hevolves)
    have hheld := hentitled.heldBy
    rw [hoperation] at hpeek hheld ⊢
    refine (ends_proceed_scan (hevolves.coherent hsession.coherent) hpeek hindex hcovers hheld
      hbounds).mono ?_ ?_
    · rintro step _ ⟨rfl, hscans⟩
      exact ⟨hsteadies hevolves, hscans⟩
    · rintro _ _ rfl
      exact hsteadies hevolves

/-- A scan that ends adds its bound to those before. -/
theorem Scanned.scan (hstretch : session.Stretch (.scan tx table) after)
    (hquiet : after.Quiet tx) :
    ∃ bounds, Scanned first tx table layout bounds after := by
  cases hstretch with
  | waits hevolves htasks hlog =>
      refine ⟨bounds, h.steadies (hevolves.steadies_of_quiet (by simp) hsession.coherent) hquiet ?_
        fun task hmem _ => htasks task hmem⟩
      rw [scans, hlog]
      rfl
  | @asks operation pool hyields hpool htasks hlog =>
      obtain ⟨hsteady, hscans⟩ := (h.yields hsession hroom hlayout hyields).1 _ _ rfl
      refine ⟨bounds, h.toShowed.steadies (hsteady.trans hpool.steadies) ?_, hquiet,
        fun task hmem hcall => ?_⟩
      · rw [scans, hlog]
        rfl
      · rcases htasks task hmem with ⟨_, hoperation⟩ | ⟨hother, _⟩
        · rw [hoperation]
          exact hscans.steadies hpool.steadies
        · exact absurd (congrArg Call.tx hcall) hother
  | @ends id outcome pool hyields hpool htasks hlog =>
      have hnobody : ∀ bounds, ∀ task ∈ after.tasks, task.call = .scan tx table →
          Scans first.pool after.pool tx table layout bounds (.ask task.operation) :=
        fun _ task hmem hcall => absurd (congrArg Call.tx hcall) (htasks task hmem).1
      rcases hyields with hdone | ⟨failure, hfailed, herror⟩
      · obtain ⟨hsteady, hscans⟩ := (h.yields hsession hroom hlayout hdone).1 _ _ rfl
        have hdelivered : pool.Steadies tx after.pool := hpool.steadies
        obtain ⟨bound, hcovers, hbounds, hresult⟩ := hscans.steadies hdelivered
        have hshowed : Showed first tx table layout bounds { session with pool := after.pool } :=
          h.toShowed.steadies (hsteady.trans hdelivered) rfl
        refine ⟨bound :: bounds, hshowed.scan rfl ?_ hcovers hbounds, hquiet, hnobody _⟩
        obtain ⟨result, tuple⟩ := outcome
        cases hresult
        rw [scans, hlog, List.filterMap_cons]
        simp [Entry.tuples?, scans]
      · have hsteady := (h.yields hsession hroom hlayout herror).2 _ _ rfl
        refine ⟨bounds, h.toShowed.steadies (hsteady.trans hpool.steadies) ?_, hquiet, hnobody _⟩
        obtain ⟨result, tuple⟩ := outcome
        cases hfailed
        rw [scans, hlog]
        rfl

end Scanned

theorem Scanned.step (h : Scanned first tx table layout bounds session)
    (hsession : session.Sound) (hpages : session.pool.HasRoom table)
    (hlayout : table.layout? = some layout) (hroom : session.HasRoom event)
    (hpermits : session.Permits event) (hsteady : event.Steady tx) :
    ∃ bounds, Scanned first tx table layout bounds (session.step event) := by
  have hpool := hsession.steadies hroom hpermits h.quiet hsteady
  have hquiet := hsession.quiet hpermits h.quiet hsteady
  cases hcall : session.call? event with
  | none =>
      obtain ⟨htasks, hlog⟩ := step_of_call_eq_none hcall
      refine ⟨bounds, h.steadies hpool hquiet ?_ fun task hmem _ => htasks task hmem⟩
      rcases hlog with hlog | ⟨command, result, _, hlog⟩
      · rw [scans, hlog]
        rfl
      · rw [scans, hlog]
        rfl
  | some call =>
      have hstretch := hsession.stretch hpermits hcall
      by_cases hscan : call = .scan tx table
      · exact h.scan hsession hpages hlayout (hscan ▸ hstretch) hquiet
      refine ⟨bounds, h.steadies hpool hquiet ?_ fun task hmem htask => ?_⟩
      · cases hstretch with
        | waits _ _ hlog | asks _ _ _ hlog =>
            rw [scans, hlog]
            rfl
        | ends _ _ _ hlog =>
            rw [scans, hlog, List.filterMap_cons, Entry.tuples?_of_ne hscan]
            rfl
      · cases hstretch with
        | waits _ htasks => exact htasks task hmem
        | asks _ _ htasks =>
            rcases htasks task hmem with ⟨hsame, _⟩ | ⟨_, hold⟩
            · exact absurd (hsame.symm.trans htask) hscan
            · exact hold
        | ends _ _ htasks => exact (htasks task hmem).2

/-- The scans of a run. -/
theorem Follows.scanned {events : List Event} (h : session.Follows events)
    (hsession : session.Sound) (hlayout : table.layout? = some layout)
    (hsteady : ∀ event ∈ events, event.Steady tx)
    (hroom : (session.run events).pool.HasRoom table)
    (hscanned : Scanned first tx table layout bounds session) :
    ∃ bounds, Scanned first tx table layout bounds (session.run events) := by
  induction events generalizing session bounds with
  | nil => exact ⟨bounds, hscanned⟩
  | cons event rest ih =>
      have hpages := (h.steadies hsession hscanned.quiet hsteady).hasRoom hroom
      obtain ⟨hevent, hpermits, hrest⟩ := h
      obtain ⟨bounds, hscanned⟩ := hscanned.step hsession hpages hlayout hevent hpermits
        (hsteady event List.mem_cons_self)
      exact ih hrest (hsession.step hevent hpermits).1
        (fun other hmem => hsteady other (List.mem_cons_of_mem event hmem)) hroom hscanned

/-- A later scan shows what an earlier one has shown, and more only from pages that are new. -/
theorem Scanned.exists_extra (h : Scanned first tx table layout bounds session)
    (hroom : session.pool.HasRoom table) :
    ∃ results, session.scans tx table = results ++ first.scans tx table ∧
      results.Pairwise fun later sooner => ∃ extra, later = sooner ++ extra ∧
        ∀ tuple ∈ extra, ∃ rid, tuple.rid = some rid ∧ rid.page.table = table.id ∧
          first.pool.stored? rid.page = none ∧ (session.pool.stored? rid.page).isSome := by
  have hlast : session.pool.stored? (table.page (UInt32.size - 1)) = none := hroom
  have hnumbered : ∀ bound ∈ bounds, bound < UInt32.size := by
    intro bound hmem
    by_contra hmany
    have hless : UInt32.size - 1 < bound :=
      Nat.lt_of_lt_of_le (by decide) (Nat.le_of_not_lt hmany)
    have hstored := (h.covers bound hmem).stored _ hless
    rw [hlast] at hstored
    cases hstored
  refine ⟨_, h.scans_eq, List.pairwise_map.2 (h.sorted.imp_of_mem ?_)⟩
  intro later sooner hlater hsooner hle
  obtain ⟨extra, hextra, hpages⟩ := listing_of_le session.pool table layout hle
  refine ⟨extra, hextra, fun tuple hmem => ?_⟩
  obtain ⟨rid, hrid, index, hfrom, hto, hpage⟩ := hpages tuple hmem
  refine ⟨rid, hrid, congrArg PageId.table hpage, ?_, ?_⟩
  · rw [hpage]
    exact (h.covers sooner hsooner).absent index hfrom
      (Nat.lt_trans hto (hnumbered later hlater))
  · rw [hpage]
    exact (h.covers later hlater).stored index hto

variable {pool : Pool} {now : Nat}

/-- **Repeatable scans.** While a transaction changes no page and gives none back, each of its scans
of a heap table shows the tuples that the scans before it have shown, in the same order and under
the same record ids. Behind these it may show more, all of them on pages that others have appended
to the table since. A heap table has fewer than 2 ^ 32 pages whenever an insertion into it goes on,
and the one that is scanned also has them at the end. -/
theorem scans_repeat (hready : pool.Ready) {earlier events : List Event}
    (h : (ofPool pool now).Follows (earlier ++ events)) (htable : pool.Registered table)
    (hlayout : table.layout? = some layout)
    (hidle : ((ofPool pool now).run earlier).Idle tx)
    (hsteady : ∀ event ∈ events, event.Steady tx)
    (hroom : ((ofPool pool now).run (earlier ++ events)).pool.HasRoom table) :
    let first := (ofPool pool now).run earlier
    let last := (ofPool pool now).run (earlier ++ events)
    ∃ results, last.scans tx table = results ++ first.scans tx table ∧
      results.Pairwise fun later sooner => ∃ extra, later = sooner ++ extra ∧
        ∀ tuple ∈ extra, ∃ rid, tuple.rid = some rid ∧ rid.page.table = table.id ∧
          first.pool.stored? rid.page = none ∧ (last.pool.stored? rid.page).isSome := by
  intro first last
  obtain ⟨hearlier, hevents⟩ := follows_append.1 h
  have hlast : last = first.run events := run_append ..
  have hstart : Scanned first tx table layout [] first := by
    refine ⟨⟨rfl, .nil, fun _ hmem => (by cases hmem), fun _ hstored => hstored, ?_⟩, ?_, ?_⟩
    · rw [Registered, table?, hearlier.tables_eq (.ofPool hready now)]
      exact htable
    · exact fun task hmem htx => absurd htx (hidle task hmem)
    · exact fun task hmem hcall => absurd (congrArg Call.tx hcall) (hidle task hmem)
  change last.pool.HasRoom table at hroom
  rw [hlast] at hroom ⊢
  obtain ⟨bounds, hscanned⟩ :=
    hevents.scanned (hearlier.sound hready) hlayout hsteady hroom hstart
  exact hscanned.exists_extra hroom

theorem scans_repeat_rescanning :
    let first := (ofPool .narrow 0).run filling
    let last := (ofPool .narrow 0).run (filling ++ rescanning)
    last.scans 1 .narrow = [[⟨[7], some ⟨⟨0, 0⟩, 0⟩⟩, ⟨[8], some ⟨⟨0, 1⟩, 0⟩⟩],
        [⟨[7], some ⟨⟨0, 0⟩, 0⟩⟩]] ∧
      ∃ results, last.scans 1 .narrow = results ++ first.scans 1 .narrow ∧
        results.Pairwise fun later sooner => ∃ extra, later = sooner ++ extra ∧
          ∀ tuple ∈ extra, ∃ rid, tuple.rid = some rid ∧ rid.page.table = 0 ∧
            first.pool.stored? rid.page = none ∧ (last.pool.stored? rid.page).isSome :=
  ⟨by decide_cbv, scans_repeat Pool.narrow_ready (by decide_cbv) rfl rfl (by decide_cbv)
    (by decide) (by decide_cbv)⟩

/-- An empty table is scanned before and after a tuple is inserted and committed. -/
def peeking : List Event :=
  .start 1 (.scan 1 .narrow) :: filling ++ [.start 2 (.scan 1 .narrow), .evaluate 2]

/-- The second scan shows a tuple that the first has not shown. -/
theorem scans_peeking :
    (ofPool .narrow 0).Follows peeking ∧ (∀ event ∈ peeking, event.Steady 1) ∧
      ((ofPool .narrow 0).run peeking).scans 1 .narrow = [[⟨[7], some ⟨⟨0, 0⟩, 0⟩⟩], []] := by
  decide_cbv

end Session

end PagePool
