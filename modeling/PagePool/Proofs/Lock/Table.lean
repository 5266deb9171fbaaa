import Mathlib.Data.List.Basic
import PagePool.Lock.Manager

/-!
# Who holds and who owns a page

A transaction holds a page if it has a lock record on it, and owns it if that record is exclusive.
On a page whose records are compatible an owner is the only holder. Every operation of the lock
table keeps the records of every page compatible, and changes holders and owners of the pages and
the transaction it is about only.
-/

namespace PagePool

namespace LockRecord

/-- The transaction has a record on the page that these records are filed under. -/
def HeldBy (records : List LockRecord) (tx : TxId) : Prop :=
  ∃ record ∈ records, record.tx = tx

def OwnedBy (records : List LockRecord) (tx : TxId) : Prop :=
  ∃ record ∈ records, record.tx = tx ∧ record.mode = .exclusive

/-- Records that may stand together on a page: one for each transaction, and an exclusive one
stands alone. -/
structure Compatible (page : PageId) (records : List LockRecord) : Prop where
  page_eq : ∀ record ∈ records, record.page = page
  nodup : (records.map LockRecord.tx).Nodup
  alone : ∀ record ∈ records, record.mode = .exclusive → records = [record]

variable {page : PageId} {records : List LockRecord} {tx other : TxId}

theorem OwnedBy.heldBy (h : OwnedBy records tx) : HeldBy records tx := by
  obtain ⟨record, hmem, htx, _⟩ := h
  exact ⟨record, hmem, htx⟩

theorem Compatible.heldBy_eq (h : Compatible page records) (howner : OwnedBy records tx)
    (hholder : HeldBy records other) : other = tx := by
  obtain ⟨record, hmem, rfl, hmode⟩ := howner
  obtain ⟨record', hmem', rfl⟩ := hholder
  rw [h.alone record hmem hmode, List.mem_singleton] at hmem'
  rw [hmem']

theorem compatible_nil : Compatible page [] where
  page_eq := by simp
  nodup := by simp
  alone := by simp

theorem Compatible.filter (h : Compatible page records) (keep : LockRecord → Bool) :
    Compatible page (records.filter keep) where
  page_eq record hmem := h.page_eq record (List.mem_of_mem_filter hmem)
  nodup := h.nodup.sublist (List.filter_sublist.map _)
  alone record hmem hmode := by
    obtain ⟨hmem, hkeep⟩ := List.mem_filter.1 hmem
    simp [h.alone record hmem hmode, hkeep]

theorem heldBy_filter_ne :
    HeldBy (records.filter (·.tx ≠ tx)) other ↔ HeldBy records other ∧ other ≠ tx := by
  constructor
  · rintro ⟨record, hmem, rfl⟩
    obtain ⟨hmem, hne⟩ := List.mem_filter.1 hmem
    exact ⟨⟨record, hmem, rfl⟩, by simpa using hne⟩
  · rintro ⟨⟨record, hmem, rfl⟩, hne⟩
    exact ⟨record, List.mem_filter.2 ⟨hmem, by simpa using hne⟩, rfl⟩

theorem ownedBy_filter_ne :
    OwnedBy (records.filter (·.tx ≠ tx)) other ↔ OwnedBy records other ∧ other ≠ tx := by
  constructor
  · rintro ⟨record, hmem, rfl, hmode⟩
    obtain ⟨hmem, hne⟩ := List.mem_filter.1 hmem
    exact ⟨⟨record, hmem, rfl, hmode⟩, by simpa using hne⟩
  · rintro ⟨⟨record, hmem, rfl, hmode⟩, hne⟩
    exact ⟨record, List.mem_filter.2 ⟨hmem, by simpa using hne⟩, rfl, hmode⟩

theorem heldBy_append (mode : LockMode) :
    HeldBy (records ++ [LockRecord.mk tx mode page]) other ↔ HeldBy records other ∨ other = tx := by
  simp [HeldBy, or_and_right, exists_or, eq_comm]

theorem ownedBy_append (mode : LockMode) :
    OwnedBy (records ++ [LockRecord.mk tx mode page]) other ↔
      OwnedBy records other ∨ (other = tx ∧ mode = .exclusive) := by
  simp [OwnedBy, or_and_right, exists_or, eq_comm]

end LockRecord

open LockRecord

namespace LockTable

variable {table : LockTable} {request : Request} {tx : TxId} {page : PageId}

/-- The records of every page may stand together. -/
def Sound (table : LockTable) : Prop :=
  ∀ page, Compatible page (table.records page)

theorem sound_empty : empty.Sound := fun _ => compatible_nil

theorem mode?_eq_exclusive_iff :
    table.mode? tx page = some .exclusive ↔ OwnedBy (table.records page) tx := by
  have hany : ((table.records page).filter (·.tx = tx)).any (·.mode = .exclusive) = true ↔
      OwnedBy (table.records page) tx := by
    simp [OwnedBy]
  simp only [mode?]
  split
  · next h => simpa using hany.1 h
  · next h =>
    have hnot : ¬OwnedBy (table.records page) tx := fun howner => h (hany.2 howner)
    split <;> simp [hnot]

theorem holds_iff : table.holds tx page = true ↔ HeldBy (table.records page) tx := by
  have hnil : (table.records page).filter (·.tx = tx) = [] ↔ ¬HeldBy (table.records page) tx := by
    simp [HeldBy]
  simp only [holds, mode?]
  split
  · next h =>
    simp only [List.any_filter, List.any_eq_true, Bool.and_eq_true, decide_eq_true_eq] at h
    obtain ⟨record, hmem, htx, _⟩ := h
    simpa using ⟨record, hmem, htx⟩
  · split
    · next h => simpa using hnil.1 h
    · next h => simpa using Classical.not_not.1 fun hheld => h (hnil.2 hheld)

theorem isExclusive_iff :
    table.isExclusive page = true ↔ ∃ tx, OwnedBy (table.records page) tx := by
  simp only [isExclusive, List.any_eq_true, decide_eq_true_eq, OwnedBy]
  constructor
  · rintro ⟨record, hmem, hmode⟩
    exact ⟨record.tx, record, hmem, rfl, hmode⟩
  · rintro ⟨_, record, hmem, _, hmode⟩
    exact ⟨record, hmem, hmode⟩

theorem mem_related_iff : page ∈ table.related tx ↔ HeldBy (table.records page) tx := by
  unfold related PageId.sort
  rw [List.mem_mergeSort, List.mem_filter]
  constructor
  · rintro ⟨_, hany⟩
    simpa [HeldBy] using hany
  · intro hheld
    refine ⟨?_, by simpa [HeldBy] using hheld⟩
    refine Classical.not_not.1 fun hkey => ?_
    obtain ⟨record, hmem, _⟩ := hheld
    rw [records, (Multimap.values_eq_nil_iff _).2 hkey] at hmem
    simp at hmem

theorem nodup_related : (table.related tx).Nodup :=
  (List.mergeSort_perm _ _).nodup_iff.2 (table.pages.nodup_keys.filter _)

theorem blockers_eq_nil_iff :
    table.blockers request = [] ↔
      ∀ record ∈ table.records request.page, record.tx ≠ request.tx →
        request.mode = .shared ∧ record.mode = .shared := by
  have hconflict : ∀ record, conflicts request record = false ↔
      (record.tx ≠ request.tx → request.mode = .shared ∧ record.mode = .shared) := by
    intro record
    unfold conflicts
    cases request.mode <;> cases record.mode <;> simp
  have hnil : ∀ txs : List TxId, txs.eraseDups = [] ↔ txs = [] := by
    intro txs
    cases txs <;> simp [List.eraseDups_cons]
  simp only [blockers, hnil, List.map_eq_nil_iff, List.filter_eq_nil_iff, Bool.not_eq_true,
    hconflict]

/-- Whoever owns a page is alone on it. -/
theorem blockers_of_ownedBy (h : table.Sound)
    (howner : OwnedBy (table.records request.page) request.tx) : table.blockers request = [] := by
  rw [blockers_eq_nil_iff]
  intro record hmem hne
  exact absurd ((h request.page).heldBy_eq howner ⟨record, hmem, rfl⟩) hne

/-- A writer that nothing blocks has the page to itself. -/
theorem tx_eq_of_exclusive (hfree : table.blockers request = [])
    (hmode : request.mode = .exclusive) {record : LockRecord}
    (hmem : record ∈ table.records request.page) : record.tx = request.tx := by
  refine Classical.not_not.1 fun hne => ?_
  have := (blockers_eq_nil_iff.1 hfree record hmem hne).1
  rw [hmode] at this
  cases this

theorem records_grant_of_ne (hpage : page ≠ request.page) :
    (table.grant request).records page = table.records page := by
  unfold grant
  split
  · simp [records_withRecord, hpage]
  · split
    · split
      · rfl
      · simp [records_withRecord, hpage]
    · simp [records_withExclusive, hpage]

/-- What a grant does to the records of its page: none of the holder's own records is lost, and
nobody else's is touched. -/
inductive Granted (request : Request) (before : List LockRecord) : List LockRecord → Prop where
  | added (hnew : ¬HeldBy before request.tx) :
      Granted request before (before ++ [.mk request.tx request.mode request.page])
  | kept (hheld : HeldBy before request.tx) (hmode : request.mode = .shared) :
      Granted request before before
  | upgraded (hheld : HeldBy before request.tx) (hmode : request.mode = .exclusive) :
      Granted request before (before.map fun record => { record with mode := .exclusive })

theorem granted_grant (hfree : table.blockers request = []) :
    Granted request (table.records request.page)
      ((table.grant request).records request.page) := by
  unfold grant
  split
  · next hnil =>
    rw [records_withRecord, if_pos rfl]
    exact .added (by simp [HeldBy, hnil])
  · next hfilled =>
    split
    · next hmode =>
      have hany : (table.records request.page).any (·.tx = request.tx) = true ↔
          HeldBy (table.records request.page) request.tx := by
        simp [HeldBy]
      split
      · next hheld => exact .kept (hany.1 hheld) hmode
      · next hheld =>
        rw [records_withRecord, if_pos rfl]
        exact .added (fun h => hheld (hany.2 h))
    · next hmode =>
      rw [records_withExclusive, if_pos rfl]
      obtain ⟨record, hmem⟩ := List.exists_mem_of_ne_nil _ hfilled
      exact .upgraded ⟨record, hmem, tx_eq_of_exclusive hfree hmode hmem⟩ hmode

section Grant

variable (hsound : Compatible request.page (table.records request.page))
  (hfree : table.blockers request = [])
include hsound hfree

theorem compatible_grant :
    Compatible request.page ((table.grant request).records request.page) := by
  have hothers := blockers_eq_nil_iff.1 hfree
  have hwriter := fun hmode record (hmem : record ∈ table.records request.page) =>
    tx_eq_of_exclusive hfree hmode hmem
  have hgranted := granted_grant hfree
  generalize (table.grant request).records request.page = after at hgranted
  cases hgranted with
  | added hnew =>
      have hne : ∀ record ∈ table.records request.page, record.tx ≠ request.tx :=
        fun record hmem htx => hnew ⟨record, hmem, htx⟩
      refine ⟨?_, ?_, ?_⟩
      · simpa [or_imp, forall_and] using hsound.page_eq
      · simpa [List.nodup_append, hsound.nodup] using hne
      · intro record hmem hmode
        rcases List.mem_append.1 hmem with hmem | hmem
        · have := (hothers record hmem (hne record hmem)).2
          rw [hmode] at this
          cases this
        · rw [List.mem_singleton] at hmem
          subst hmem
          have hnil : table.records request.page = [] := List.eq_nil_iff_forall_not_mem.2
            fun record hmem => hne record hmem (hwriter hmode record hmem)
          simp [hnil]
  | kept hheld hmode => exact hsound
  | upgraded hheld hmode =>
      refine ⟨?_, ?_, ?_⟩
      · simpa using hsound.page_eq
      · simpa [List.map_map, Function.comp_def] using hsound.nodup
      · intro record hmem _
        obtain ⟨source, hsource, rfl⟩ := List.mem_map.1 hmem
        -- all records are the writer's own, so there is just one
        have hlength : (table.records request.page).length ≤ 1 := by
          have hall : (table.records request.page).map LockRecord.tx =
              List.replicate (table.records request.page).length request.tx := by
            rw [List.eq_replicate_iff]
            refine ⟨List.length_map _, fun tx htx => ?_⟩
            obtain ⟨other, hother, rfl⟩ := List.mem_map.1 htx
            exact hwriter hmode other hother
          have hnodup := hsound.nodup
          rw [hall] at hnodup
          exact List.nodup_replicate.1 hnodup
        obtain ⟨only, honly⟩ : ∃ only, table.records request.page = [only] :=
          List.length_eq_one_iff.1
            (Nat.le_antisymm hlength (List.length_pos_of_mem hsource))
        rw [honly, List.mem_singleton] at hsource
        simp [honly, hsource]

omit hsound in
theorem heldBy_grant (tx : TxId) :
    HeldBy ((table.grant request).records request.page) tx ↔
      HeldBy (table.records request.page) tx ∨ tx = request.tx := by
  have hgranted := granted_grant hfree
  generalize (table.grant request).records request.page = after at hgranted
  cases hgranted with
  | added => exact heldBy_append _
  | kept hheld hmode => exact ⟨.inl, fun h => h.elim id fun htx => htx ▸ hheld⟩
  | upgraded hheld hmode =>
      have hmap : HeldBy ((table.records request.page).map fun record =>
          { record with mode := .exclusive }) tx ↔ HeldBy (table.records request.page) tx := by
        simp [HeldBy]
      exact hmap.trans ⟨.inl, fun h => h.elim id fun htx => htx ▸ hheld⟩

omit hsound in
theorem ownedBy_grant (tx : TxId) :
    OwnedBy ((table.grant request).records request.page) tx ↔
      OwnedBy (table.records request.page) tx ∨
        (tx = request.tx ∧ request.mode = .exclusive) := by
  have hgranted := granted_grant hfree
  have hwriter := fun hmode record (hmem : record ∈ table.records request.page) =>
    tx_eq_of_exclusive hfree hmode hmem
  generalize (table.grant request).records request.page = after at hgranted
  cases hgranted with
  | added => exact ownedBy_append _
  | kept hheld hmode => simp [hmode]
  | upgraded hheld hmode =>
      have hmap : OwnedBy ((table.records request.page).map fun record =>
          { record with mode := .exclusive }) tx ↔ HeldBy (table.records request.page) tx := by
        simp [OwnedBy, HeldBy]
      rw [hmap]
      constructor
      · rintro ⟨record, hmem, rfl⟩
        exact .inr ⟨hwriter hmode record hmem, hmode⟩
      · rintro (howner | ⟨rfl, _⟩)
        · exact howner.heldBy
        · exact hheld

end Grant

theorem Sound.grant (h : table.Sound) (hfree : table.blockers request = []) :
    (table.grant request).Sound := by
  intro page
  by_cases hpage : page = request.page
  · subst hpage
    exact compatible_grant (h _) hfree
  · rw [records_grant_of_ne hpage]
    exact h page

theorem Sound.release (h : table.Sound) (tx : TxId) (released : PageId) :
    (table.release tx released).Sound := by
  intro page
  rw [records_release]
  split
  · exact (h page).filter _
  · exact h page

theorem Sound.complete (h : table.Sound) (tx : TxId) : (table.complete tx).Sound := by
  intro page
  rw [records_complete]
  exact (h page).filter _

end LockTable

namespace LockManager

theorem attempt_of_free {manager : LockManager} {request : Request}
    (hfree : manager.table.blockers request = []) (budget : Budget) (now : Nat) :
    manager.attempt request budget now =
      (.granted, { manager with table := manager.table.grant request }.stopWaiting request.tx) := by
  unfold attempt evaluate
  rw [hfree]

/-- An attempt grants the request if nothing blocks it; otherwise no lock changes hands. -/
theorem attempt_cases (manager : LockManager) (request : Request) (budget : Budget) (now : Nat) :
    ((manager.attempt request budget now).1 = .granted ∧ manager.table.blockers request = [] ∧
        (manager.attempt request budget now).2.table = manager.table.grant request) ∨
      ((manager.attempt request budget now).1 ≠ .granted ∧
        (manager.attempt request budget now).2.table = manager.table) := by
  unfold attempt evaluate
  cases hblockers : manager.table.blockers request with
  | nil => exact .inl ⟨rfl, rfl, rfl⟩
  | cons blocker rest =>
      dsimp only
      cases WaitForGraph.findDeadlock _ _ _ with
      | some chain => exact .inr ⟨by simp, rfl⟩
      | none =>
          dsimp only
          split
          · exact .inr ⟨by simp, rfl⟩
          · exact .inr ⟨by simp, rfl⟩

/-- A refusal tells its caller to abort. -/
theorem kind_of_refused {manager : LockManager} {request : Request} {budget : Budget} {now : Nat}
    {error : Error} (h : (manager.attempt request budget now).1 = .refused error) :
    error.kind = .deadlock := by
  unfold attempt at h
  split at h
  · cases h
  · cases h
    rfl
  · split at h
    · cases h
      rfl
    · cases h

end LockManager

end PagePool
