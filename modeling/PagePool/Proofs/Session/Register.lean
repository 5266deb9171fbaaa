import PagePool.Proofs.Pool.Rows
import PagePool.Proofs.Session.Replay

/-!
# The edits of transactions

The register of a log keeps the edits of each transaction under way, and those of the transactions
that have committed. The edits of a transaction under way can be made on all tuples that agree with
those from before on the pages that it has written, whatever the others do in the meantime, and when
it commits, they can be made on what was committed before.
-/

namespace PagePool

open LockRecord Standing Pool

structure Register where
  running : TxId → List Edit
  /-- The edits of the transactions that have committed, the first to do so in front. -/
  committed : List Edit

namespace Register

def start : Register where
  running _ := []
  committed := []

def note (register : Register) (tx : TxId) (edit? : Option Edit) : Register :=
  { register with
    running := Function.update register.running tx (register.running tx ++ edit?.toList) }

def finish (register : Register) (ending : Ending) (tx : TxId) : Register where
  running := Function.update register.running tx []
  committed :=
    match ending with
    | .commit => register.committed ++ register.running tx
    | .abort => register.committed

def record (register : Register) : Entry → Register
  | .call _ call outcome => register.note call.tx (call.edit? outcome)
  | .command (.finish ending tx) (.ok _) => register.finish ending tx
  | _ => register

end Register

/-- The register of a log, its latest entry first. -/
def Entry.register : List Entry → Register
  | [] => .start
  | entry :: earlier => (register earlier).record entry

/-- Wherever the pages that a transaction has written have the tuples from before, its edits can be
made, and lead to the tuples that the transaction is shown on them. -/
def Pool.Replays (pool : Pool) (tx : TxId) (edits : List Edit) : Prop :=
  ∀ rows : Rows, (∀ rid, (pool.standing rid.page).WrittenBy tx → rows rid = pool.baseRows rid) →
    ∃ after, rows.replay edits = some after ∧
      (∀ rid, (pool.standing rid.page).WrittenBy tx → after rid = pool.shownRows rid) ∧
      ∀ rid, ¬(pool.standing rid.page).WrittenBy tx → after rid = rows rid

/-- What the register says about a run that started from one pool and has come to another. -/
structure Register.Tells (register : Register) (first pool : Pool) : Prop where
  committed : first.storedRows.replay register.committed = some pool.baseRows
  running : ∀ tx, pool.Replays tx (register.running tx)

section Pools

variable {pool before after : Pool} {deed : Deed} {tx actor : TxId} {edits : List Edit}
  {edit : Edit} {ending : Ending} {page : PageId} {rid : RecordId}

theorem Pool.rowsOf_eq {bytes other : PageId → Bytes} (hsame : bytes rid.page = other rid.page) :
    pool.rowsOf bytes rid = pool.rowsOf other rid := by
  rw [rowsOf, rowsOf, hsame]

theorem Pool.Evolves.shownRows_of_unwritten (h : Evolves deed actor before after)
    (hbefore : before.Coherent) (hwritten : (after.standing rid.page).WrittenBy tx)
    (hnew : ¬(before.standing rid.page).WrittenBy tx) :
    before.shownRows rid = before.baseRows rid := by
  refine rowsOf_eq ((hbefore.coherent rid.page).content_eq_base_of_unwritten fun owner howner => ?_)
  have howner' := (h.moves rid.page).writtenBy (hbefore.coherent _) howner
  obtain rfl := ((h.coherent hbefore).coherent _).writer_eq howner' hwritten
  exact hnew howner

theorem Pool.Releases.shownRows_eq (h : before.Releases actor page after) :
    after.shownRows = before.shownRows := by
  rw [shownRows, shownRows, rowsOf_congr h.tables_eq, h.content_eq]

theorem Pool.Releases.baseRows_eq (h : before.Releases actor page after) :
    after.baseRows = before.baseRows := by
  rw [baseRows, baseRows, rowsOf_congr h.tables_eq, h.base_eq]

/-- What a commit leaves on a page to go back to is what the transaction was shown. -/
theorem Pool.Finishes.baseRows_commit (h : before.Finishes .commit tx after)
    (hbefore : before.Coherent) (rid : RecordId) :
    ((before.standing rid.page).WrittenBy tx → after.baseRows rid = before.shownRows rid) ∧
      (¬(before.standing rid.page).WrittenBy tx → after.baseRows rid = before.baseRows rid) := by
  rw [baseRows, rowsOf_congr h.tables_eq]
  refine ⟨fun hwritten => rowsOf_eq (h.base_of_held hwritten.1.heldBy), fun hunwritten => ?_⟩
  refine rowsOf_eq ?_
  by_cases hheld : HeldBy (before.locks.table.records rid.page) tx
  · refine (h.base_of_held hheld).trans
      ((hbefore.coherent _).content_eq_base_of_unwritten fun owner hwritten => ?_)
    obtain rfl := (hbefore.coherent _).compatible.heldBy_eq hwritten.1 hheld
    exact hunwritten hwritten
  · exact h.base_of_free hheld

theorem Pool.Finishes.baseRows_abort (h : before.Finishes .abort tx after) :
    after.baseRows = before.baseRows := by
  rw [baseRows, baseRows, rowsOf_congr h.tables_eq, h.base_abort]

namespace Pool.Replays

theorem nil (hfree : ∀ id, ¬(pool.standing id).WrittenBy tx) : pool.Replays tx [] :=
  fun rows _ => ⟨rows, rfl, fun _ hwritten => absurd hwritten (hfree _), fun _ _ => rfl⟩

theorem congr (h : before.Replays tx edits)
    (hwritten : ∀ id, (after.standing id).WrittenBy tx ↔ (before.standing id).WrittenBy tx)
    (hbase : ∀ rid, (before.standing rid.page).WrittenBy tx →
      after.baseRows rid = before.baseRows rid)
    (hshown : ∀ rid, (before.standing rid.page).WrittenBy tx →
      after.shownRows rid = before.shownRows rid) : after.Replays tx edits := by
  intro rows hrows
  simp only [hwritten] at hrows ⊢
  obtain ⟨last, hreplay, hinside, houtside⟩ := h rows fun rid hrid =>
    (hrows rid hrid).trans (hbase rid hrid)
  exact ⟨last, hreplay, fun rid hrid => (hinside rid hrid).trans (hshown rid hrid).symm, houtside⟩

/-- The pages that a transaction has come to write in the meantime are as they were. -/
theorem extend (h : before.Replays tx edits) (hevolves : Evolves deed actor before after)
    (hbefore : before.Coherent) (rows : Rows)
    (hrows : ∀ rid, (after.standing rid.page).WrittenBy tx → rows rid = after.baseRows rid) :
    ∃ middle, rows.replay edits = some middle ∧
      (∀ rid, (after.standing rid.page).WrittenBy tx → middle rid = before.shownRows rid) ∧
      ∀ rid, ¬(after.standing rid.page).WrittenBy tx → middle rid = rows rid := by
  have hkept : ∀ {id}, (before.standing id).WrittenBy tx → (after.standing id).WrittenBy tx :=
    fun {id} => (hevolves.moves id).writtenBy (hbefore.coherent id)
  rw [hevolves.baseRows_eq hbefore] at hrows
  obtain ⟨middle, hreplay, hinside, houtside⟩ := h rows fun rid hrid => hrows rid (hkept hrid)
  refine ⟨middle, hreplay, fun rid hrid => ?_, fun rid hrid => houtside rid (mt hkept hrid)⟩
  -- a page that the transaction has come to write was nobody's before, so no edit was on it
  by_cases hold : (before.standing rid.page).WrittenBy tx
  · exact hinside rid hold
  · rw [houtside rid hold, hrows rid hrid, hevolves.shownRows_of_unwritten hbefore hrid hold]

theorem evolves (h : before.Replays tx edits) (hevolves : Evolves deed actor before after)
    (hbefore : before.Coherent) (hshown : ∀ rid, (after.standing rid.page).WrittenBy tx →
      after.shownRows rid = before.shownRows rid) : after.Replays tx edits := by
  intro rows hrows
  obtain ⟨middle, hreplay, hinside, houtside⟩ := h.extend hevolves hbefore rows hrows
  exact ⟨middle, hreplay, fun rid hrid => (hinside rid hrid).trans (hshown rid hrid).symm, houtside⟩

theorem append (h : before.Replays tx edits) (hevolves : Evolves deed actor before after)
    (hbefore : before.Coherent) (hedits : before.Edits tx edit after) :
    after.Replays tx (edits ++ [edit]) := by
  intro rows hrows
  obtain ⟨middle, hreplay, hinside, houtside⟩ := h.extend hevolves hbefore rows hrows
  obtain ⟨hfits, hshown⟩ := Rows.apply_eq_some_iff.1 hedits.applied
  rw [← hinside _ hedits.written] at hfits
  refine ⟨Function.update middle edit.rid edit.cells?, ?_, fun rid hrid => ?_, fun rid hrid => ?_⟩
  · rw [Rows.replay_append, hreplay, Option.bind_some, Rows.replay, List.foldlM_cons,
      Rows.apply_eq_some_iff.2 ⟨hfits, rfl⟩]
    rfl
  · rw [hshown]
    by_cases hsame : rid = edit.rid
    · rw [hsame, Function.update_self, Function.update_self]
    · rw [Function.update_of_ne hsame, Function.update_of_ne hsame, hinside rid hrid]
  · have hne : rid ≠ edit.rid := by
      rintro rfl
      exact hrid hedits.written
    rw [Function.update_of_ne hne, houtside rid hrid]

theorem release (h : before.Replays tx edits) (hreleases : before.Releases actor page after)
    (hclean : before.Unmodified actor page) : after.Replays tx edits := by
  refine h.congr (fun id => ?_) (fun rid _ => congrFun hreleases.baseRows_eq rid)
    fun rid _ => congrFun hreleases.shownRows_eq rid
  rw [hreleases.standing_eq]
  split
  · next hsame =>
    subst hsame
    rw [writtenBy_unlock_iff, and_iff_left_of_imp]
    rintro hwritten rfl
    exact hclean.not_writtenBy hwritten
  · exact Iff.rfl

theorem finish (h : before.Replays tx edits) (hbefore : before.Coherent)
    (hfinishes : before.Finishes ending actor after) (hother : tx ≠ actor) :
    after.Replays tx edits := by
  have hunlocked : ∀ {id}, OwnedBy (before.locks.table.records id) tx →
      after.standing id = (before.standing id).unlock actor := fun {id} howner =>
    hfinishes.standing_eq_of_unowned hbefore fun hactor =>
      hother ((hbefore.coherent id).compatible.heldBy_eq hactor howner.heldBy)
  have hsame : ∀ {rid : RecordId}, (before.standing rid.page).WrittenBy tx →
      after.base rid.page = before.base rid.page ∧
        after.content rid.page = before.content rid.page := by
    intro rid hwritten
    obtain ⟨hbase, hcontent, _⟩ := hfinishes.same_of_held hbefore hother hwritten.1.heldBy
    exact ⟨hbase, hcontent⟩
  refine h.congr (fun id => ⟨fun hwritten => ?_, fun hwritten => ?_⟩) (fun rid hwritten => ?_)
    fun rid hwritten => ?_
  · have howner := ((hfinishes.ownedBy_iff id).1 hwritten.1).1
    rw [hunlocked howner] at hwritten
    exact (writtenBy_unlock_iff.1 hwritten).1
  · rw [hunlocked hwritten.1]
    exact writtenBy_unlock_iff.2 ⟨hwritten, hother⟩
  · rw [baseRows, rowsOf_congr hfinishes.tables_eq]
    exact rowsOf_eq (hsame hwritten).1
  · rw [shownRows, rowsOf_congr hfinishes.tables_eq]
    exact rowsOf_eq (hsame hwritten).2

end Pool.Replays

namespace Register.Tells

variable {register : Register} {first : Pool} {edit? : Option Edit}

theorem evolves (h : register.Tells first before) (hevolves : Evolves deed actor before after)
    (hbefore : before.Coherent) (hshown : after.shownRows = before.shownRows) :
    register.Tells first after where
  committed := by rw [h.committed, hevolves.baseRows_eq hbefore]
  running tx := (h.running tx).evolves hevolves hbefore fun rid _ => congrFun hshown rid

theorem makes (h : register.Tells first before) (hevolves : Evolves deed actor before after)
    (hbefore : before.Coherent) (hmakes : before.Makes tx edit? after) :
    (register.note tx edit?).Tells first after where
  committed := by
    rw [hevolves.baseRows_eq hbefore]
    exact h.committed
  running other := by
    cases edit? with
    | none =>
        have hsame : (register.note tx none).running = register.running := by
          simp [note]
        rw [hsame]
        exact (h.evolves hevolves hbefore hmakes).running other
    | some edit =>
        by_cases hother : other = tx
        · simp only [note, hother, Function.update_self]
          exact (h.running tx).append hevolves hbefore hmakes
        · simp only [note, Function.update_of_ne hother]
          -- the edit is on a page that its own transaction has written
          refine (h.running other).evolves hevolves hbefore fun rid hwritten => ?_
          have hne : rid ≠ edit.rid := by
            rintro rfl
            have hafter := (hevolves.coherent hbefore).coherent edit.rid.page
            exact hother (hafter.writer_eq hmakes.written hwritten)
          rw [(Rows.apply_eq_some_iff.1 hmakes.applied).2, Function.update_of_ne hne]

theorem release (h : register.Tells first before) (hreleases : before.Releases actor page after)
    (hclean : before.Unmodified actor page) : register.Tells first after where
  committed := by rw [h.committed, hreleases.baseRows_eq]
  running tx := (h.running tx).release hreleases hclean

/-- A commit leaves the tuples that the edits of its transaction lead to. -/
theorem finish (h : register.Tells first before) (hbefore : before.Coherent)
    (hfinishes : before.Finishes ending tx after) :
    (register.finish ending tx).Tells first after where
  committed := by
    cases ending with
    | abort => exact hfinishes.baseRows_abort ▸ h.committed
    | commit =>
        -- the edits can start from what the aborts of all would leave
        obtain ⟨last, hreplay, hinside, houtside⟩ := h.running tx before.baseRows fun _ _ => rfl
        have hlast : last = after.baseRows := by
          funext rid
          obtain ⟨hwritten, hunwritten⟩ := hfinishes.baseRows_commit hbefore rid
          by_cases hrid : (before.standing rid.page).WrittenBy tx
          · rw [hinside rid hrid, hwritten hrid]
          · rw [houtside rid hrid, hunwritten hrid]
        rw [Register.finish, Rows.replay_append, h.committed, Option.bind_some, hreplay, hlast]
  running other := by
    by_cases hother : other = tx
    · simp only [Register.finish, hother, Function.update_self]
      refine .nil fun id hwritten => ?_
      exact ((hfinishes.ownedBy_iff id).1 hwritten.1).2 rfl
    · simp only [Register.finish, Function.update_of_ne hother]
      exact (h.running other).finish hbefore hfinishes hother

end Register.Tells

end Pools

end PagePool
