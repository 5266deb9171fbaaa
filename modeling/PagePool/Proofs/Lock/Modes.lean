import PagePool.Proofs.Lock.Table

/-!
# The lock modes of everybody

Which lock everybody has on which page is all that a lock request is decided by. A grant and a
release change it for one transaction and one page. A reader that gives back what it has just been
granted leaves no trace.
-/

namespace PagePool

open LockRecord

/-- The strongest lock of every transaction on every page. -/
abbrev LockModes := TxId → PageId → Option LockMode

namespace LockModes

/-- One transaction has another lock on one page. -/
def put (modes : LockModes) (tx : TxId) (page : PageId) (mode : Option LockMode) : LockModes :=
  fun other id => if other = tx ∧ id = page then mode else modes other id

/-- Nobody else has a lock that conflicts with a request. -/
def Free (modes : LockModes) (request : Request) : Prop :=
  ∀ other ≠ request.tx, modes other request.page = none ∨
    request.mode = .shared ∧ modes other request.page ≠ some .exclusive

/-- A reader that has a lock keeps it as it is. -/
def grant (modes : LockModes) (request : Request) : LockModes :=
  if request.mode = .shared ∧ (modes request.tx request.page).isSome then modes
  else modes.put request.tx request.page (some request.mode)

variable {modes : LockModes} {tx : TxId} {page : PageId}

theorem grant_exclusive (modes : LockModes) (tx : TxId) (page : PageId) :
    modes.grant ⟨tx, page, .exclusive⟩ = modes.put tx page (some .exclusive) :=
  if_neg fun h => by cases h.1

/-- Whoever asks for reading does not become a writer. -/
theorem eq_exclusive_of_grant {other : TxId} {id : PageId}
    (h : modes.grant ⟨tx, page, .shared⟩ other id = some .exclusive) :
    modes other id = some .exclusive := by
  unfold grant at h
  split at h
  · exact h
  · unfold put at h
    split at h
    · cases h
    · exact h

@[simp]
theorem put_self (modes : LockModes) (tx : TxId) (page : PageId) (mode : Option LockMode) :
    modes.put tx page mode tx page = mode :=
  if_pos ⟨rfl, rfl⟩

theorem put_of_page_ne (mode : Option LockMode) {id : PageId} (h : id ≠ page) (other : TxId) :
    modes.put tx page mode other id = modes other id :=
  if_neg fun hsame => h hsame.2

theorem put_of_tx_ne (mode : Option LockMode) {other : TxId} (h : other ≠ tx) (id : PageId) :
    modes.put tx page mode other id = modes other id :=
  if_neg fun hsame => h hsame.1

@[simp]
theorem put_put (modes : LockModes) (tx : TxId) (page : PageId) (mode mode' : Option LockMode) :
    (modes.put tx page mode).put tx page mode' = modes.put tx page mode' := by
  funext other id
  unfold put
  split <;> rfl

/-- A writer that has read the page before ends up with the same lock. -/
theorem put_grant (modes : LockModes) (tx : TxId) (page : PageId) (mode : LockMode)
    (mode' : Option LockMode) :
    (modes.grant ⟨tx, page, mode⟩).put tx page mode' = modes.put tx page mode' := by
  unfold grant
  split
  · rfl
  · exact put_put ..

theorem put_eq_self {mode : Option LockMode} (h : modes tx page = mode) :
    modes.put tx page mode = modes := by
  funext other id
  unfold put
  split
  · next hsame => rw [hsame.1, hsame.2, h]
  · rfl

/-- Who may write may read. -/
theorem Free.shared (h : modes.Free ⟨tx, page, .exclusive⟩) : modes.Free ⟨tx, page, .shared⟩ := by
  intro other hne
  rcases h other hne with hnone | ⟨hmode, _⟩
  · exact .inl hnone
  · cases hmode

/-- The locks of the requester do not keep it from more. -/
theorem Free.grant (h : modes.Free ⟨tx, page, .exclusive⟩) (mode : LockMode) :
    (modes.grant ⟨tx, page, mode⟩).Free ⟨tx, page, .exclusive⟩ := by
  intro other hne
  unfold LockModes.grant
  split
  · exact h other hne
  · exact (put_of_tx_ne _ hne _).symm ▸ h other hne

end LockModes

namespace LockTable

variable {table after : LockTable} {request : Request} {tx other : TxId} {page id : PageId}

theorem mode?_eq_none_iff :
    table.mode? tx page = none ↔ ¬HeldBy (table.records page) tx := by
  rw [← holds_iff, holds, Bool.not_eq_true, Option.isSome_eq_false_iff, Option.isNone_iff_eq_none]

theorem mode?_eq_shared_iff :
    table.mode? tx page = some .shared ↔
      HeldBy (table.records page) tx ∧ ¬OwnedBy (table.records page) tx := by
  rw [← mode?_eq_exclusive_iff, ← holds_iff, holds]
  cases table.mode? tx page with
  | none => simp
  | some mode => cases mode <;> simp

/-- The mode of a lock says who holds the page and who owns it, and nothing more. -/
theorem mode?_eq_of_iff (hheld : HeldBy (after.records page) tx ↔ HeldBy (table.records page) tx)
    (howned : OwnedBy (after.records page) tx ↔ OwnedBy (table.records page) tx) :
    after.mode? tx page = table.mode? tx page := by
  cases hmode : table.mode? tx page with
  | none => rwa [mode?_eq_none_iff, hheld, ← mode?_eq_none_iff]
  | some mode =>
      cases mode with
      | shared => rwa [mode?_eq_shared_iff, hheld, howned, ← mode?_eq_shared_iff]
      | exclusive => rwa [mode?_eq_exclusive_iff, howned, ← mode?_eq_exclusive_iff]

/-- The blockers of a request are those whose locks conflict with it. -/
theorem free_iff : LockModes.Free table.mode? request ↔ table.blockers request = [] := by
  rw [blockers_eq_nil_iff]
  constructor
  · intro h record hmem hne
    have hheld : HeldBy (table.records request.page) record.tx := ⟨record, hmem, rfl⟩
    rcases h record.tx hne with hnone | ⟨hshared, hreader⟩
    · exact absurd hheld (mode?_eq_none_iff.1 hnone)
    · refine ⟨hshared, ?_⟩
      cases hmode : record.mode with
      | shared => rfl
      | exclusive => exact absurd (mode?_eq_exclusive_iff.2 ⟨record, hmem, rfl, hmode⟩) hreader
  · intro h other hne
    by_cases hheld : HeldBy (table.records request.page) other
    · obtain ⟨record, hmem, rfl⟩ := hheld
      refine .inr ⟨(h record hmem hne).1, fun hexclusive => ?_⟩
      obtain ⟨writer, hmem', htx, hmode⟩ := mode?_eq_exclusive_iff.1 hexclusive
      have hshared := (h writer hmem' (htx ▸ hne)).2
      rw [hmode] at hshared
      cases hshared
    · exact .inl (mode?_eq_none_iff.2 hheld)

section Grant

variable (hfree : table.blockers request = [])
include hfree

/-- A grant leaves the locks of all others as they are, and those on other pages. -/
theorem mode?_grant_of_ne (h : ¬(tx = request.tx ∧ page = request.page)) :
    (table.grant request).mode? tx page = table.mode? tx page := by
  by_cases hpage : page = request.page
  · subst hpage
    have hne : tx ≠ request.tx := fun htx => h ⟨htx, rfl⟩
    exact mode?_eq_of_iff ((heldBy_grant hfree tx).trans (or_iff_left hne))
      ((ownedBy_grant hfree tx).trans (or_iff_left fun hsame => hne hsame.1))
  · unfold mode?
    rw [records_grant_of_ne hpage]

/-- Whoever has no lock yet gets what it asks for, and a writer gets it in any case. -/
theorem mode?_grant_self
    (hmode : request.mode = .shared → table.mode? request.tx request.page = none) :
    (table.grant request).mode? request.tx request.page = some request.mode := by
  cases hrequest : request.mode with
  | exclusive => exact mode?_eq_exclusive_iff.2 ((ownedBy_grant hfree _).2 (.inr ⟨rfl, hrequest⟩))
  | shared =>
      have hnew := mode?_eq_none_iff.1 (hmode hrequest)
      refine mode?_eq_shared_iff.2 ⟨(heldBy_grant hfree _).2 (.inr rfl), fun howner => ?_⟩
      rcases (ownedBy_grant hfree _).1 howner with howner | ⟨_, hexclusive⟩
      · exact hnew howner.heldBy
      · cases hrequest.symm.trans hexclusive

theorem mode?_grant : (table.grant request).mode? = LockModes.grant table.mode? request := by
  unfold LockModes.grant
  split
  · next hkept =>
    have hheld : HeldBy (table.records request.page) request.tx := holds_iff.1 hkept.2
    obtain ⟨record, hmem, htx⟩ := hheld
    have hany : (table.records request.page).any (·.tx = request.tx) = true :=
      List.any_eq_true.2 ⟨record, hmem, decide_eq_true htx⟩
    unfold LockTable.grant
    rw [if_neg (List.ne_nil_of_mem hmem), hkept.1]
    exact congrArg LockTable.mode? (if_pos hany)
  · next hnew =>
    funext tx page
    unfold LockModes.put
    split
    · next hsame =>
      rw [hsame.1, hsame.2]
      refine mode?_grant_self hfree fun hshared => ?_
      rw [← Option.not_isSome_iff_eq_none]
      exact fun hheld => hnew ⟨hshared, hheld⟩
    · next hne => exact mode?_grant_of_ne hfree hne

end Grant

theorem mode?_release (table : LockTable) (tx : TxId) (page : PageId) :
    (table.release tx page).mode? = LockModes.put table.mode? tx page none := by
  funext other id
  unfold LockModes.put
  split
  · next hsame =>
    rw [hsame.1, hsame.2, mode?_eq_none_iff, records_release, if_pos rfl, heldBy_filter_ne]
    exact fun h => h.2 rfl
  · next hne =>
    by_cases hpage : id = page
    · subst hpage
      have htx : other ≠ tx := fun htx => hne ⟨htx, rfl⟩
      refine mode?_eq_of_iff ?_ ?_
      · rw [records_release, if_pos rfl, heldBy_filter_ne]
        exact and_iff_left htx
      · rw [records_release, if_pos rfl, ownedBy_filter_ne]
        exact and_iff_left htx
    · unfold mode?
      rw [records_release, if_neg hpage]

end LockTable

end PagePool
