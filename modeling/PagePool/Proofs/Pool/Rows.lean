import PagePool.Proofs.Layout
import PagePool.Pool.Opening
import PagePool.Proofs.Pool.Operation

/-!
# Tuples in a pool

The heap pages of a pool are a map from record ids to cells. A call on a heap table that goes
through the pool leaves the map as it is, up to the stretch that it succeeds with: this one makes
the edit that the call answers for, on a page that its transaction owns.
-/

namespace PagePool

open LockRecord Standing Pool

abbrev Rows := RecordId → Option (List Cell)

inductive Edit where
  | insert (rid : RecordId) (cells : List Cell)
  | delete (rid : RecordId)
  deriving DecidableEq

namespace Edit

def rid : Edit → RecordId
  | .insert rid _ | .delete rid => rid

/-- What is left of the row. -/
def cells? : Edit → Option (List Cell)
  | .insert _ cells => some cells
  | .delete _ => none

end Edit

namespace Rows

/-- Nothing is inserted where something is, and nothing is deleted where nothing is. -/
def apply (rows : Rows) : Edit → Option Rows
  | .insert rid cells =>
      match rows rid with
      | none => some (Function.update rows rid (some cells))
      | some _ => none
  | .delete rid =>
      match rows rid with
      | none => none
      | some _ => some (Function.update rows rid none)

/-- Makes edits one after the other. -/
def replay (rows : Rows) (edits : List Edit) : Option Rows :=
  edits.foldlM apply rows

variable {rows after : Rows} {edit : Edit}

theorem apply_eq_some_iff : rows.apply edit = some after ↔
    (rows edit.rid).isSome ≠ edit.cells?.isSome ∧
      after = Function.update rows edit.rid edit.cells? := by
  cases edit with
  | insert rid cells =>
      cases hrow : rows rid <;> simp [apply, Edit.rid, Edit.cells?, hrow, eq_comm]
  | delete rid =>
      cases hrow : rows rid <;> simp [apply, Edit.rid, Edit.cells?, hrow, eq_comm]

theorem replay_append (first rest : List Edit) :
    rows.replay (first ++ rest) = (rows.replay first).bind fun middle => middle.replay rest :=
  List.foldlM_append

theorem replay_cons (edit : Edit) (rest : List Edit) :
    rows.replay (edit :: rest) = (rows.apply edit).bind fun middle => middle.replay rest :=
  List.foldlM_cons

theorem isSome_replay {edits : List Edit} {rid : RecordId} (h : rows.replay edits = some after)
    (hsame : ∀ edit ∈ edits, edit.rid = rid → edit.cells?.isSome = (rows rid).isSome) :
    (after rid).isSome = (rows rid).isSome := by
  induction edits generalizing rows with
  | nil =>
      cases h
      rfl
  | cons edit rest ih =>
      rw [replay_cons] at h
      obtain ⟨middle, hmiddle, h⟩ := Option.bind_eq_some_iff.1 h
      obtain ⟨hfits, rfl⟩ := apply_eq_some_iff.1 hmiddle
      -- an edit of the row itself would be of the kind that does not fit
      have hne : rid ≠ edit.rid := by
        rintro rfl
        exact hfits (hsame edit List.mem_cons_self rfl).symm
      have hrow : Function.update rows edit.rid edit.cells? rid = rows rid :=
        Function.update_of_ne hne ..
      rw [← hrow]
      refine ih h fun other hmem hrid => ?_
      rw [hrow]
      exact hsame other (List.mem_cons_of_mem edit hmem) hrid

/-- A row is not inserted twice without being deleted in between, or the other way round. -/
theorem exists_between {first between rest : List Edit} {later : Edit}
    (h : rows.replay (first ++ edit :: (between ++ later :: rest)) = some after)
    (hrid : later.rid = edit.rid) (hkind : later.cells?.isSome = edit.cells?.isSome) :
    ∃ other ∈ between, other.rid = edit.rid ∧ other.cells?.isSome ≠ edit.cells?.isSome := by
  by_contra hnone
  rw [replay_append] at h
  obtain ⟨before, _, h⟩ := Option.bind_eq_some_iff.1 h
  rw [replay_cons] at h
  obtain ⟨middle, hmiddle, h⟩ := Option.bind_eq_some_iff.1 h
  rw [replay_append] at h
  obtain ⟨last, hlast, h⟩ := Option.bind_eq_some_iff.1 h
  rw [replay_cons] at h
  obtain ⟨_, hlater, _⟩ := Option.bind_eq_some_iff.1 h
  have hrow : middle edit.rid = edit.cells? := by
    rw [(apply_eq_some_iff.1 hmiddle).2, Function.update_self]
  have hkept := isSome_replay hlast fun other hmem hsame => by
    by_contra hother
    rw [hrow] at hother
    exact hnone ⟨other, hmem, hsame, hother⟩
  apply (apply_eq_some_iff.1 hlater).1
  rw [hrid, hkept, hrow, hkind]

end Rows

/-- The edit that a call makes, if it succeeds. -/
def Call.edit? : Call → Outcome → Option Edit
  | .insert _ _ tuple, ⟨.ok _, some placed⟩ => placed.rid.map fun rid => .insert rid tuple.cells
  | .delete _ tuple, ⟨.ok _, _⟩ => tuple.rid.map .delete
  | _, _ => none

namespace Pool

def layout? (pool : Pool) (number : UInt32) : Option Layout :=
  (pool.table? number).bind Table.layout?

/-- The tuples on pages with the given bytes. -/
def rowsOf (pool : Pool) (bytes : PageId → Bytes) : Rows := fun rid =>
  (pool.layout? rid.page.table).bind fun layout =>
    layout.row? (Page.load rid.page (bytes rid.page)) rid.slot

/-- The tuples that a transaction would be shown. -/
def shownRows (pool : Pool) : Rows :=
  pool.rowsOf pool.content

/-- The tuples that are left if all transactions abort. -/
def baseRows (pool : Pool) : Rows :=
  pool.rowsOf pool.base

def storedRows (pool : Pool) : Rows := fun rid =>
  (pool.layout? rid.page.table).bind fun layout =>
    (pool.stored? rid.page).bind fun data => layout.row? (Page.load rid.page data) rid.slot

/-- The heap tables are laid out for pages of the pool's size. -/
def Fitted (pool : Pool) : Prop :=
  ∀ table ∈ pool.tables, ∀ layout ∈ table.layout?, layout.pageSize = pool.pageSize

/-- A call that changes tuples does so through the pool, and on heap tables. -/
def Deals (pool : Pool) : Call → Prop
  | .insert _ number _ => pool.table? number = none ∨ (pool.layout? number).isSome
  | .delete _ tuple => ∀ rid ∈ tuple.rid,
      pool.table? rid.page.table = none ∨ (pool.layout? rid.page.table).isSome
  | .insertInto .. | .deleteFrom .. => False
  | .acquire .. | .get .. | .scan .. => True

instance (pool : Pool) : Decidable pool.Fitted :=
  inferInstanceAs (Decidable (∀ table ∈ pool.tables, ∀ layout ∈ table.layout?, _ = _))

instance (pool : Pool) : (call : Call) → Decidable (pool.Deals call)
  | .insert _ number _ =>
      inferInstanceAs (Decidable (pool.table? number = none ∨ (pool.layout? number).isSome))
  | .delete _ tuple => inferInstanceAs (Decidable (∀ rid ∈ tuple.rid, _ = none ∨ _))
  | .insertInto .. | .deleteFrom .. => inferInstanceAs (Decidable False)
  | .acquire .. | .get .. | .scan .. => inferInstanceAs (Decidable True)

/-- The owner of a page has made an edit on it. -/
structure Edits (tx : TxId) (edit : Edit) (before after : Pool) : Prop where
  written : (after.standing edit.rid.page).WrittenBy tx
  applied : before.shownRows.apply edit = some after.shownRows

/-- The edit has been made, if there is one, and no other. -/
def Makes (tx : TxId) (edit? : Option Edit) (before after : Pool) : Prop :=
  match edit? with
  | none => after.shownRows = before.shownRows
  | some edit => before.Edits tx edit after

end Pool

/-- The operation is one of the call's, over the layout of the table that the call changes. -/
def Operation.Deals (operation : Operation) (pool : Pool) : Call → Prop
  | .insert _ number tuple => ∃ table layout placement, table.id = number ∧
      pool.layout? number = some layout ∧ operation.request.page.table = number ∧
      operation.goal = .insert { table, tuple, pooled := true } layout placement
  | .delete _ tuple => ∃ rid layout, tuple.rid = some rid ∧
      pool.layout? rid.page.table = some layout ∧ operation.request.page = rid.page ∧
      operation.goal = .delete layout tuple true
  | _ => True

/-- The call goes on, or has made its edit. -/
def Step.Deals (step : Step) (before after : Pool) (call : Call) : Prop :=
  match step with
  | .ask operation => operation.Deals after call ∧ after.shownRows = before.shownRows
  | .done outcome => before.Makes call.tx (call.edit? outcome) after

section Facts

variable {pool before middle after : Pool} {tx : TxId} {call : Call} {edit : Edit} {id : PageId}
  {ref : PageRef} {layout : Layout}

theorem Call.edit?_of_error {outcome : Outcome} {failure : Failure}
    (hfailed : outcome.result = .error failure) : call.edit? outcome = none := by
  obtain ⟨result, tuple⟩ := outcome
  cases hfailed
  cases call <;> rfl

theorem Pool.rowsOf_congr (htables : after.tables = before.tables) :
    after.rowsOf = before.rowsOf := by
  funext bytes rid
  simp only [rowsOf, layout?, table?, htables]

theorem Pool.Unwritten.shownRows_eq (h : before.Unwritten tx after) :
    after.shownRows = before.shownRows := by
  rw [shownRows, shownRows, rowsOf_congr h.evolves.tables_eq, h.content_eq]

theorem Pool.Fitted.pageSize_eq (h : pool.Fitted) {number : UInt32}
    (hlayout : pool.layout? number = some layout) : layout.pageSize = pool.pageSize := by
  obtain ⟨table, htable, hlayout⟩ := Option.bind_eq_some_iff.1 hlayout
  exact h table (List.mem_of_find?_eq_some htable) layout hlayout

theorem Pool.Fitted.congr (h : before.Fitted) (htables : after.tables = before.tables)
    (hsize : after.pageSize = before.pageSize) : after.Fitted := by
  rw [Fitted, htables, hsize]
  exact h

theorem Pool.Coherent.length_page (h : pool.Coherent) (hpeek : pool.cache.peek? id = some ref) :
    (pool.page ref).data.length = pool.pageSize := by
  obtain ⟨bytes, hstored, hlength, _⟩ := (h.coherent id).resident _ _ (standing_cached hpeek)
  exact hlength.trans (h.length_stored hstored)

theorem Pool.Coherent.length_content (h : pool.Coherent) (id : PageId) :
    (pool.content id).length = pool.pageSize := by
  cases hpeek : pool.cache.peek? id with
  | some ref =>
      have hcontent : pool.content id = (pool.page ref).data :=
        content_of_cached (standing_cached hpeek)
      rw [hcontent, h.length_page hpeek]
  | none =>
      have hcontent : pool.content id = (pool.stored? id).getD (Bytes.zeros pool.pageSize) :=
        content_of_absent (standing_cached_none hpeek)
      rw [hcontent]
      cases hstored : pool.stored? id with
      | some bytes => exact h.length_stored hstored
      | none => exact List.length_replicate

/-- A listing of a page in storage shows the tuples that are stored on it, each of them once. -/
theorem Pool.Sound.tuples_stored (h : pool.Sound) (hfitted : pool.Fitted)
    (hlayout : pool.layout? id.table = some layout) {data : Bytes}
    (hstored : pool.stored? id = some data) :
    ∃ tuples, layout.tuples (Page.load id data) = .ok tuples ∧ (tuples.map Tuple.rid).Nodup ∧
      ∀ tuple, tuple ∈ tuples ↔ ∃ rid cells, rid.page = id ∧ pool.storedRows rid = some cells ∧
        tuple = { cells, rid := some rid } := by
  have hlength : (Page.load id data).data.length = layout.pageSize :=
    (h.length_stored hstored).trans (hfitted.pageSize_eq hlayout).symm
  refine ⟨_, Layout.tuples_eq hlength, Layout.nodup_rid hlength (Layout.tuples_eq hlength),
    fun tuple => ?_⟩
  rw [Layout.mem_tuples_iff hlength (Layout.tuples_eq hlength)]
  have hrow : ∀ slot, pool.storedRows { page := id, slot } =
      layout.row? (Page.load id data) slot := by
    intro slot
    simp only [storedRows, hlayout, hstored, Option.bind_some]
  constructor
  · rintro ⟨slot, cells, hcells, rfl⟩
    exact ⟨_, cells, rfl, (hrow slot).trans hcells, rfl⟩
  · rintro ⟨⟨_, slot⟩, cells, rfl, hcells, rfl⟩
    exact ⟨slot, cells, (hrow slot).symm.trans hcells, rfl⟩

theorem Pool.Modified.writtenBy (h : pool.Modified tx ref) (hpool : pool.Sound)
    (hpeek : pool.cache.peek? id = some ref) : (pool.standing id).WrittenBy tx := by
  obtain ⟨other, hother, howner, himage⟩ := h
  obtain rfl := hpool.ref_inj hpeek hother
  exact ⟨howner, ref, _, standing_cached hpeek, himage⟩

theorem Pool.Edits.unwritten (h : before.Edits tx edit middle) (hmiddle : middle.Coherent)
    (hafter : middle.Unwritten tx after) : before.Edits tx edit after where
  written := (hafter.evolves.moves _).writtenBy (hmiddle.coherent _) h.written
  applied := by rw [hafter.shownRows_eq, h.applied]

theorem Pool.shownRows_of_cached (hpeek : pool.cache.peek? id = some ref)
    (hlayout : pool.layout? id.table = some layout) {rid : RecordId} (hrid : rid.page = id) :
    pool.shownRows rid = layout.row? (pool.page ref) rid.slot := by
  have hcontent : pool.content id = (pool.page ref).data :=
    content_of_cached (standing_cached hpeek)
  rw [shownRows, rowsOf, hrid, hlayout, Option.bind_some]
  exact congrFun (Layout.row?_congr hcontent) rid.slot

theorem Pool.Evolves.shownRows_eq {deed : Deed} (h : Evolves deed tx before after)
    (hquiet : deed ≠ .change) (hbefore : before.Coherent) : after.shownRows = before.shownRows := by
  rw [shownRows, shownRows, rowsOf_congr h.tables_eq, h.content_eq hquiet hbefore]

theorem Pool.Evolves.baseRows_eq {deed : Deed} (h : Evolves deed tx before after)
    (hbefore : before.Coherent) : after.baseRows = before.baseRows := by
  rw [baseRows, baseRows, rowsOf_congr h.tables_eq, h.base_eq hbefore]

theorem Pool.layout?_eq (htables : after.tables = before.tables) :
    after.layout? = before.layout? := by
  funext number
  rw [layout?, layout?, table?, table?, htables]

theorem Pool.exists_heap {number : UInt32} {table : Table}
    (htable : pool.table? number = some table)
    (h : pool.table? number = none ∨ (pool.layout? number).isSome) :
    ∃ layout, table.kind = .heap layout ∧ pool.layout? number = some layout := by
  have hlayout : pool.layout? number = table.layout? := by
    rw [layout?, htable]
    rfl
  rcases h with hnone | hsome
  · cases htable.symm.trans hnone
  · rw [hlayout] at hsome ⊢
    cases hkind : table.kind with
    | heap layout => exact ⟨layout, rfl, by simp only [Table.layout?, hkind]⟩
    | stamps mode => simp [Table.layout?, hkind] at hsome

theorem Pool.Deals.congr (h : before.Deals call) (htables : after.tables = before.tables) :
    after.Deals call := by
  cases call with
  | insert | delete => simpa only [Deals, layout?_eq htables, table?, htables] using h
  | _ => exact h

theorem Operation.Deals.congr {operation : Operation} (h : operation.Deals before call)
    (htables : after.tables = before.tables) : operation.Deals after call := by
  cases call with
  | insert | delete => simpa only [Operation.Deals, layout?_eq htables] using h
  | _ => trivial

theorem Operation.Deals.deed_of_lock {operation : Operation} (h : operation.Deals pool call)
    (hdeals : pool.Deals call) (hgoal : operation.goal = .lock) : call.deed = .access := by
  cases call with
  | acquire | get | scan => rfl
  | insertInto | deleteFrom => cases hdeals
  | insert =>
      obtain ⟨_, _, _, _, _, _, hinsert⟩ := h
      cases hgoal.symm.trans hinsert
  | delete =>
      obtain ⟨_, _, _, _, _, hdelete⟩ := h
      cases hgoal.symm.trans hdelete

theorem Step.Deals.congr {step : Step} (h : step.Deals middle after call)
    (hshown : middle.shownRows = before.shownRows) : step.Deals before after call := by
  cases step with
  | ask operation => exact ⟨h.1, h.2.trans hshown⟩
  | done outcome =>
      change before.Makes call.tx (call.edit? outcome) after
      change middle.Makes call.tx (call.edit? outcome) after at h
      cases hedit : call.edit? outcome with
      | none =>
          rw [hedit] at h
          exact Eq.trans h hshown
      | some edit =>
          rw [hedit] at h
          exact ⟨h.written, hshown ▸ h.applied⟩

theorem Step.deals_of_access {step : Step} (hdeed : call.deed = .access)
    (hshown : after.shownRows = before.shownRows) : step.Deals before after call := by
  cases call with
  | insert | delete | insertInto | deleteFrom => cases hdeed
  | acquire | get | scan =>
      cases step with
      | ask operation => exact ⟨trivial, hshown⟩
      | done outcome => exact hshown

/-- An owner that rewrites its page up to one row makes an edit. -/
theorem edits_setPage (hpool : pool.Coherent) (hpeek : pool.cache.peek? id = some ref)
    (howner : OwnedBy (pool.locks.table.records id) tx)
    (hlayout : pool.layout? id.table = some layout) {page : Page}
    (hpage : (pool.page ref).Rewritten tx page) (hid : edit.rid.page = id)
    (hfits : (layout.row? (pool.page ref) edit.rid.slot).isSome ≠ edit.cells?.isSome)
    (hrows : ∀ other, layout.row? page other =
      if other = edit.rid.slot then edit.cells? else layout.row? (pool.page ref) other) :
    pool.Edits tx edit (pool.setPage ref page) := by
  obtain ⟨hevolves, hmodified⟩ := evolves_rewritten hpool.toSound hpeek howner hpage
  refine ⟨hid ▸ hmodified.writtenBy hevolves.sound hpeek, Rows.apply_eq_some_iff.2 ⟨?_, ?_⟩⟩
  · rwa [shownRows_of_cached hpeek hlayout hid]
  · funext rid
    by_cases hrid : rid.page = id
    · have hpeek' : (pool.setPage ref page).cache.peek? id = some ref := hpeek
      have hlayout' : (pool.setPage ref page).layout? id.table = some layout := hlayout
      rw [shownRows_of_cached hpeek' hlayout' hrid, page_setPage_self hpool.toSound hpeek, hrows]
      by_cases hslot : rid.slot = edit.rid.slot
      · have hsame : rid = edit.rid := by
          obtain ⟨_, _⟩ := rid
          rw [← hid] at hrid
          cases hrid
          cases hslot
          rfl
        rw [if_pos hslot, hsame, Function.update_self]
      · have hne : rid ≠ edit.rid := fun h => hslot (h ▸ rfl)
        rw [if_neg hslot, Function.update_of_ne hne, shownRows_of_cached hpeek hlayout hrid]
    · have hne : rid ≠ edit.rid := fun h => hrid (h ▸ hid)
      rw [Function.update_of_ne hne, shownRows, content_setPage hpool.toSound hpeek]
      simp only [rowsOf, Function.update_of_ne hrid]
      rfl

end Facts

section Steps

variable {pool : Pool} (hpool : pool.Coherent) {call : Call}
include hpool

theorem ends_inspectFrom_deals {table : Table} (tuple : Tuple) (htable : pool.Registered table)
    (hroom : pool.HasRoom table) {tx : TxId} {layout : Layout}
    (hlayout : pool.layout? table.id = some layout) (index bound : Nat) :
    Ends (inspectFrom tx { table, tuple, pooled := true } layout index bound) pool
      (fun step after => step.Deals pool after (.insert tx table.id tuple))
      (fun _ after => after.shownRows = pool.shownRows) := by
  rw [ends_inspectFrom_iff]
  split
  · exact ⟨⟨table, layout, _, rfl, hlayout, rfl, rfl⟩, rfl⟩
  · refine (@ends_allocatePage pool hpool tx table htable (hroom.volume htable)).mono ?_ fun _ _ h =>
      h.shownRows_eq
    rintro page after ⟨hpage, hkept⟩
    refine ⟨⟨table, layout, _, rfl, ?_, hpage, rfl⟩, hkept.shownRows_eq⟩
    rw [layout?_eq hkept.evolves.tables_eq, hlayout]

/-- A call that starts makes no edit yet. -/
theorem ends_start_deals (hdeals : pool.Deals call) (hroom : pool.HasRoomFor call) :
    Ends call.start pool (fun step after => step.Deals pool after call)
      (fun _ after => after.shownRows = pool.shownRows) := by
  cases call with
  | acquire | get => exact ⟨trivial, rfl⟩
  | scan tx table =>
      simp only [Call.start]
      cases table.layout? with
      | none => rfl
      | some layout =>
          refine (ends_pageCount table pool).bind ?_ fun _ _ h => h ▸ rfl
          rintro _ pool ⟨rfl, _⟩
          exact Step.deals_of_access rfl rfl
  | insertInto | deleteFrom => cases hdeals
  | insert tx number tuple =>
      refine (ends_getTable number pool).bind ?_ fun _ _ h => h ▸ rfl
      rintro table pool ⟨rfl, htable⟩
      obtain ⟨layout, hkind, hlayout⟩ := exists_heap htable hdeals
      obtain rfl := table?_id htable
      simp only [Insertion.start, hkind]
      refine (ends_pageCount table pool).bind ?_ fun _ _ h => h ▸ rfl
      rintro count pool ⟨rfl, _⟩
      have hheap : table.layout?.isSome := by rw [Table.layout?, hkind]; rfl
      exact ends_inspectFrom_deals hpool tuple htable (hroom table (grown?_insert htable hheap))
        hlayout 0 count
  | delete tx tuple =>
      simp only [Call.start]
      cases hrid : tuple.rid with
      | none => rfl
      | some rid =>
          refine (ends_getTable rid.page.table pool).bind ?_ fun _ _ h => h ▸ rfl
          rintro table pool ⟨rfl, htable⟩
          obtain ⟨layout, hkind, hlayout⟩ := exists_heap htable (hdeals rid hrid)
          simp only [startDelete, hrid, hkind]
          split
          · rfl
          · exact ⟨⟨rid, layout, hrid, hlayout, rfl, rfl⟩, rfl⟩

section Proceed

variable {ref : PageRef} {layout : Layout} (hfitted : pool.Fitted)
include hfitted

section Page

variable {id : PageId} {tx : TxId} (hpeek : pool.cache.peek? id = some ref)
  (howner : OwnedBy (pool.locks.table.records id) tx)
  (hlayout : pool.layout? id.table = some layout)
include hpeek howner hlayout

theorem ends_place_edits (insertion : Insertion) :
    Ends (insertion.place tx layout ref) pool
      (fun step after => ∃ slot, step = .done ⟨.ok .unit,
          some { insertion.tuple with rid := some ⟨id, slot⟩ }⟩ ∧
        pool.Edits tx (.insert ⟨id, slot⟩ insertion.tuple.cells) after)
      (fun _ after => after.shownRows = pool.shownRows) := by
  have hlength : (pool.page ref).data.length = layout.pageSize :=
    (hpool.length_page hpeek).trans (hfitted.pageSize_eq hlayout).symm
  rw [ends_place_iff, ends_onPage]
  refine ((layout.ends_insert tx _ insertion.tuple).and
    (Layout.ends_insert_row hlength)).mono ?_ ?_
  · rintro _ page ⟨hpage, slot, rfl, hfree, hrows⟩
    obtain ⟨hevolves, hmodified⟩ := evolves_rewritten hpool.toSound hpeek howner hpage
    have hcoherent := hevolves.coherent hpool
    have hedits : pool.Edits tx (.insert ⟨id, slot⟩ insertion.tuple.cells)
        (pool.setPage ref page) := by
      refine edits_setPage hpool hpeek howner hlayout hpage rfl ?_ hrows
      change (layout.row? (pool.page ref) slot).isSome ≠ true
      rw [hfree]
      exact Bool.false_ne_true
    -- whatever the hold says, the tuple is on the page; but it does not fail
    refine (ends_hold hcoherent insertion.pooled (List.forall_mem_singleton.2 hmodified)).mono ?_
      fun _ _ => False.elim
    intro _ after hafter
    rw [hpool.named hpeek]
    exact ⟨slot, rfl, hedits.unwritten hcoherent hafter⟩
  · rintro _ _ ⟨_, rfl⟩
    rw [setPage_page]

theorem ends_delete_edits (tuple : Tuple) (pooled : Bool) :
    Ends (onPage ref (layout.delete tx tuple)) pool
      (fun _ middle => Ends (hold pooled tx [ref]) middle
        (fun _ after => ∃ rid, tuple.rid = some rid ∧ pool.Edits tx (.delete rid) after)
        (fun _ after => after.shownRows = pool.shownRows))
      (fun _ after => after.shownRows = pool.shownRows) := by
  have hlength : (pool.page ref).data.length = layout.pageSize :=
    (hpool.length_page hpeek).trans (hfitted.pageSize_eq hlayout).symm
  rw [ends_onPage]
  refine ((layout.ends_delete tx _ tuple).and (Layout.ends_delete_row hlength)).mono ?_ ?_
  · rintro _ page ⟨hpage, rid, hrid, hid, hused, hrows⟩
    obtain ⟨hevolves, hmodified⟩ := evolves_rewritten hpool.toSound hpeek howner hpage
    have hcoherent := hevolves.coherent hpool
    have hedits : pool.Edits tx (.delete rid) (pool.setPage ref page) := by
      refine edits_setPage hpool hpeek howner hlayout hpage (hid.trans (hpool.named hpeek)) ?_ hrows
      change (layout.row? (pool.page ref) rid.slot).isSome ≠ false
      rw [hused]
      exact Bool.false_ne_true.symm
    exact (ends_hold hcoherent pooled (List.forall_mem_singleton.2 hmodified)).mono
      (fun _ _ hafter => ⟨rid, hrid, hedits.unwritten hcoherent hafter⟩) fun _ _ => False.elim
  · rintro _ _ ⟨_, rfl⟩
    rw [setPage_page]

end Page

section Operation

variable {request : Request} {tuple : Tuple}
  (hpeek : pool.cache.peek? request.page = some ref)
include hpeek

theorem ends_insertion_deals {table : Table} {placement : Placement}
    (hop : Operation.Entitled
      { request, goal := .insert { table, tuple, pooled := true } layout placement } pool
      (.insert request.tx table.id tuple))
    (hlayout : pool.layout? table.id = some layout) (hpage : request.page.table = table.id)
    (hroom : pool.HasRoom table) :
    Ends (Operation.proceed
        { request, goal := .insert { table, tuple, pooled := true } layout placement } ref) pool
      (fun step after => step.Deals pool after (.insert request.tx table.id tuple))
      (fun _ after => after.shownRows = pool.shownRows) := by
  obtain ⟨⟨_, _, htable, hmode⟩, _, howned, hreader⟩ := hop
  have hplaced : request.mode = .exclusive →
      Ends (Insertion.place { table, tuple, pooled := true } request.tx layout ref) pool
        (fun step after => step.Deals pool after (.insert request.tx table.id tuple))
        (fun _ after => after.shownRows = pool.shownRows) := by
    intro hexclusive
    refine (ends_place_edits hpool hfitted hpeek (howned hexclusive) (hpage ▸ hlayout)
      _).mono ?_ fun _ _ h => h
    rintro _ after ⟨slot, rfl, hedits⟩
    exact hedits
  rw [ends_proceed_iff]
  cases placement with
  | upgrade => exact hplaced hmode
  | append => exact hplaced hmode
  | inspect index bound held =>
      refine ⟨fun _ _ => rfl, fun free _ => ?_⟩
      split
      · exact ⟨⟨table, layout, _, rfl, hlayout, hpage, rfl⟩, rfl⟩
      split
      · exact ends_inspectFrom_deals hpool tuple htable hroom hlayout (index + 1) bound
      · next hfresh =>
        refine (ends_releaseLock hpool (hreader (by simpa [Goal.drops] using hfresh))).mono ?_
          fun _ _ => False.elim
        rintro _ middle ⟨hkept, htables, hstored⟩
        -- the page is full, and giving its lock back changes no row
        have hroom' : middle.HasRoom table := by
          rw [HasRoom, hstored]
          exact hroom
        rw [← layout?_eq htables] at hlayout
        refine (ends_inspectFrom_deals (hkept.evolves.coherent hpool) tuple
          (hkept.evolves.registered htable) hroom' hlayout (index + 1) bound).mono ?_ ?_
        · exact fun _ _ hstep => hstep.congr hkept.shownRows_eq
        · exact fun _ _ hshown => hshown.trans hkept.shownRows_eq

theorem ends_deletion_deals
    (hop : Operation.Entitled { request, goal := .delete layout tuple true } pool
      (.delete request.tx tuple))
    (hlayout : pool.layout? request.page.table = some layout) :
    Ends (Operation.proceed { request, goal := .delete layout tuple true } ref) pool
      (fun step after => step.Deals pool after (.delete request.tx tuple))
      (fun _ after => after.shownRows = pool.shownRows) := by
  have howner := hop.ownedBy hop.fits.2
  rw [ends_proceed_iff]
  refine (ends_delete_edits hpool hfitted hpeek howner hlayout tuple true).mono
    (fun _ _ hheld => hheld.mono ?_ fun _ _ h => h) fun _ _ h => h
  rintro _ after ⟨rid, hrid, hedits⟩
  change pool.Makes request.tx (tuple.rid.map .delete) after
  rw [hrid]
  exact hedits

end Operation

/-- A call that goes on makes its edit in the stretch that it ends with. -/
theorem ends_proceed_deals {operation : Operation} (hcall : pool.Deals call)
    (hop : operation.Entitled pool call) (hdeals : operation.Deals pool call)
    (hpeek : pool.cache.peek? operation.request.page = some ref) (hroom : pool.HasRoomFor call) :
    Ends (operation.proceed ref) pool (fun step after => step.Deals pool after call)
      (fun _ after => after.shownRows = pool.shownRows) := by
  have haccess : call.deed = .access →
      Ends (operation.proceed ref) pool (fun step after => step.Deals pool after call)
        (fun _ after => after.shownRows = pool.shownRows) := by
    intro hdeed
    have hproceed := ends_proceed hpool hpeek hop rfl hroom
    rw [hdeed] at hproceed
    exact hproceed.mono (fun _ _ h => Step.deals_of_access hdeed (h.1.shownRows_eq (by simp) hpool))
      fun _ _ h => h.shownRows_eq (by simp) hpool
  obtain ⟨request, goal⟩ := operation
  have htx : request.tx = call.tx := hop.tx_eq
  cases call with
  | acquire | get | scan => exact haccess rfl
  | insertInto | deleteFrom => cases hcall
  | insert tx number tuple =>
      obtain ⟨table, layout, placement, rfl, hlayout, hpage, rfl⟩ := hdeals
      obtain rfl : request.tx = tx := htx
      exact ends_insertion_deals hpool hfitted hpeek hop hlayout hpage (hroom _ hop.fits.1)
  | delete tx tuple =>
      obtain ⟨rid, layout, hrid, hlayout, hpage, rfl⟩ := hdeals
      obtain rfl : request.tx = tx := htx
      exact ends_deletion_deals hpool hfitted hpeek hop (hpage ▸ hlayout)

end Proceed

end Steps

end PagePool
