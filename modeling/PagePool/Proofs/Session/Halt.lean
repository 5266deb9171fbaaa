import PagePool.Proofs.Pool.Halt
import PagePool.Proofs.Session.Ending

/-!
# Transactions that fail to end

Storage may fail while a transaction ends. The transaction keeps its locks then and can be aborted,
but an abort does not undo all of it: what a failed commit has written stays, and so do the bytes
that a failed abort could not write over.
-/

namespace PagePool

open LockRecord Standing Pool

/-- A pool with two tables of one page each. -/
def Pool.twoTables : Pool where
  pageSize := 2
  cache := { capacity := 2, entries := [] }
  frames := .empty
  locks := .new .default .plain
  tables :=
    [{ id := 0, volume := 0, kind := .stamps .exclusive },
      { id := 1, volume := 1, kind := .stamps .exclusive }]
  volumes := [.ofMedium (.memory [[0, 0]]), .ofMedium (.memory [[0, 0]])]

theorem Pool.twoTables_ready : Pool.twoTables.Ready where
  empty := rfl
  unlocked _ := rfl
  backed := by decide
  reliable := by
    intro table hmem
    have hblank : (Volume.ofMedium (.memory [[0, 0]])).Reliable 2 :=
      Volume.reliable_ofMemory (by decide)
    rcases List.mem_pair.1 hmem with rfl | rfl
    · exact hblank
    · exact hblank
  apart := by decide
  strict := by
    intro table hmem
    have hkinds : ∀ table ∈ Pool.twoTables.tables, table.kind = .stamps .exclusive := by decide
    simp [hkinds table hmem]

/-- A transaction writes a page of each table. -/
def changing : List Event :=
  [.start 0 (.get 1 ⟨0, 0⟩ .exclusive), .evaluate 0, .command (.write 0 1 0 [7]),
    .start 1 (.get 1 ⟨1, 0⟩ .exclusive), .evaluate 1, .command (.write 1 1 0 [8])]

/-- A transaction writes a page, which is flushed. -/
def flushing : List Event :=
  [.start 0 (.get 1 ⟨0, 0⟩ .exclusive), .evaluate 0, .command (.write 0 1 0 [7]),
    .command (.flushPage ⟨0, 0⟩)]

/-- All writes to one volume fail. -/
def outageOf (ref : VolumeRef) : VolumeRef → Nat → Bool :=
  fun other _ => other = ref

namespace Session

variable {pool halted final : Pool} {events : List Event} {now : Nat} {tx : TxId}

/-- **Failed commit.** However often a commit fails, the transaction keeps its locks. The pages that
it has to write fall into those that have been written and the others, of which there are some. An
abort that succeeds then restores the others; the pages that have been written keep the bytes of the
transaction. A heap table has fewer than 2 ^ 32 pages whenever an insertion into it goes on. -/
theorem failed_commit (hready : pool.Ready) (h : (Session.ofPool pool now).Follows events)
    (hfails : Relation.TransGen (Pool.Fails .commit tx)
      ((Session.ofPool pool now).run events).pool halted) :
    let before := ((Session.ofPool pool now).run events).pool
    let ledger := (Session.ofPool pool now).audit (.start pool) events
    halted.locks = before.locks ∧
      ∃ written rest, before.locks.table.related tx = written ++ rest ∧ rest ≠ [] ∧
        ∀ final, halted.Succeeds .abort tx final →
          ∀ id change, ledger.changed tx id = some change →
            ∃ ref bytes, final.cache.peek? id = some ref ∧ final.stored? id = some bytes ∧
              (final.page ref).Settled bytes ∧
              bytes = if id ∈ written then change.after else change.before := by
  intro before ledger
  have hbefore : before.Coherent := (h.sound hready).coherent
  have hledger : ledger.Sound before := h.ledger_start hready
  obtain ⟨written, rest, hrelated, hne, hsettles⟩ := settles_of_fails hbefore.mend hfails
  refine ⟨hsettles.locks_eq, written, rest, hrelated, hne, fun final hends id change hchange => ?_⟩
  have hfinishes := finishes_of_succeeds (hsettles.coherent hbefore.mend) hends
  obtain ⟨⟨howner, ref, page, hcached, _⟩, hbase, hcontent⟩ := (hledger id).written hchange
  have hheld : HeldBy (halted.mend.locks.table.records id) tx := by
    rw [hsettles.locks_eq]
    exact howner.heldBy
  have hpeek : halted.mend.cache.peek? id = some ref :=
    (hsettles.peek?_eq id).trans (standing_cached_iff.1 hcached).1
  obtain ⟨hpeek', hstored, hsettled⟩ := hfinishes.settled_of_cached hheld (standing_cached hpeek)
  rw [stored?_mend] at hstored
  refine ⟨ref, _, hpeek', hstored, hsettled, ?_⟩
  change (halted.mend.standing id).base halted.mend.pageSize = _
  rw [hsettles.standing_eq, hsettles.pageSize_eq, standing_mend]
  split
  · exact (base_settle ..).trans hcontent
  · exact hbase

theorem failed_commit_changing :
    let before := ((ofPool .twoTables 0).run changing).pool
    let halted := (before.tryFinish .commit 1 (outageOf 1)).2
    let final := (halted.tryFinish .abort 1 fun _ _ => false).2
    halted.locks = before.locks ∧
      ∃ written rest, before.locks.table.related 1 = written ++ rest ∧ rest ≠ [] ∧
        ∃ ref bytes, final.cache.peek? ⟨0, 0⟩ = some ref ∧ final.stored? ⟨0, 0⟩ = some bytes ∧
          (final.page ref).Settled bytes ∧
          bytes = if ⟨0, 0⟩ ∈ written then [7, 0] else [0, 0] := by
  intro before halted final
  obtain ⟨hlocks, written, rest, hrelated, hne, hafter⟩ := failed_commit Pool.twoTables_ready
    (by decide_cbv : (ofPool .twoTables 0).Follows changing)
    (.single (Pool.fails_tryFinish (by decide_cbv :
      (before.tryFinish .commit 1 (outageOf 1)).1 = false)))
  refine ⟨hlocks, written, rest, hrelated, hne, ?_⟩
  exact hafter final (Pool.succeeds_tryFinish (by decide_cbv)) ⟨0, 0⟩ ⟨[0, 0], [7, 0]⟩
    (by decide_cbv)

/-- The first page has been written when the commit fails at the second one, and no abort takes it
back. -/
theorem commit_outlives_abort :
    let before := ((ofPool .twoTables 0).run changing).pool
    let ledger := (ofPool .twoTables 0).audit (.start .twoTables) changing
    let halted := before.tryFinish .commit 1 (outageOf 1)
    let final := halted.2.tryFinish .abort 1 fun _ _ => false
    halted.1 = false ∧ final.1 = true ∧ ledger.changed 1 ⟨0, 0⟩ = some ⟨[0, 0], [7, 0]⟩ ∧
      final.2.stored? ⟨0, 0⟩ = some [7, 0] := by
  decide_cbv

/-- **Failed abort.** However often an abort fails, the transaction keeps its locks. An abort that
succeeds then has the bytes from before the transaction in the cache for every page, and it has them
in storage but for the pages at which an abort has failed: these stay stolen, and storage has what
it had before. A heap table has fewer than 2 ^ 32 pages whenever an insertion into it goes on. -/
theorem failed_abort (hready : pool.Ready) (h : (Session.ofPool pool now).Follows events)
    (hfails : Relation.TransGen (Pool.Fails .abort tx)
      ((Session.ofPool pool now).run events).pool halted) :
    let before := ((Session.ofPool pool now).run events).pool
    let ledger := (Session.ofPool pool now).audit (.start pool) events
    halted.locks = before.locks ∧
      ∃ torn, torn ≠ [] ∧ ∀ final, halted.Succeeds .abort tx final →
        (∀ id change, ledger.changed tx id = some change →
          ∃ ref, final.cache.peek? id = some ref ∧ (final.page ref).data = change.before ∧
            (id ∉ torn → final.stored? id = some change.before ∧
              (final.page ref).Settled change.before)) ∧
        ∀ id ∈ torn, ∃ ref, final.cache.peek? id = some ref ∧ (final.page ref).stolen = true ∧
          final.stored? id = before.stored? id := by
  intro before ledger
  have hbefore : before.Coherent := (h.sound hready).coherent
  have hledger : ledger.Sound before := h.ledger_start hready
  obtain ⟨restored, torn, hne, hheld, hretreats⟩ := retreats_of_fails hbefore.mend hfails
  refine ⟨hretreats.locks_eq, torn, hne, fun final hends => ⟨fun id change hchange => ?_,
    fun id hid => ?_⟩⟩
  · obtain ⟨⟨howner, ref, page, hcached, _⟩, hbase, _⟩ := (hledger id).written hchange
    have hstanding := hretreats.standing_of_succeeds hbefore.mend hends id howner.heldBy
    by_cases hid : id ∈ torn
    · rw [if_pos hid, tear_of_cached hcached] at hstanding
      obtain ⟨hpeek, hpage⟩ := standing_cached_iff.1 (congrArg Standing.cached hstanding)
      refine ⟨ref, hpeek, ?_, fun hrestored => absurd hid hrestored⟩
      rw [← hpage]
      exact (base_of_cached hcached).symm.trans hbase
    · have houtcome : (before.standing id).outcome before.pageSize .abort = change.before := hbase
      rw [if_neg hid, settle_of_cached hcached, houtcome] at hstanding
      obtain ⟨hpeek, hpage⟩ := standing_cached_iff.1 (congrArg Standing.cached hstanding)
      refine ⟨ref, hpeek, ?_, fun _ => ⟨congrArg Standing.stored hstanding, ?_⟩⟩
      · rw [← hpage]
        rfl
      · rw [← hpage]
        exact .load id _
  · obtain ⟨ref, page, hcached, himage, hstolen⟩ := hretreats.stolen id hid
    have hstanding := hretreats.standing_of_succeeds hbefore.mend hends id (hheld id hid)
    rw [standing_mend] at hcached
    rw [if_pos hid, tear_of_cached hcached] at hstanding
    obtain ⟨hpeek, hpage⟩ := standing_cached_iff.1 (congrArg Standing.cached hstanding)
    refine ⟨ref, hpeek, ?_, congrArg Standing.stored hstanding⟩
    rw [← hpage]
    exact hstolen

theorem failed_abort_flushed :
    let before := ((ofPool .twoTables 0).run flushing).pool
    let halted := (before.tryFinish .abort 1 (outageOf 0)).2
    let final := (halted.tryFinish .abort 1 fun _ _ => false).2
    halted.locks = before.locks ∧ ∃ torn, torn ≠ [] ∧
      (∃ ref, final.cache.peek? ⟨0, 0⟩ = some ref ∧ (final.page ref).data = [0, 0] ∧
        (⟨0, 0⟩ ∉ torn → final.stored? ⟨0, 0⟩ = some [0, 0] ∧
          (final.page ref).Settled [0, 0])) ∧
      ∀ id ∈ torn, ∃ ref, final.cache.peek? id = some ref ∧ (final.page ref).stolen = true ∧
        final.stored? id = before.stored? id := by
  intro before halted final
  obtain ⟨hlocks, torn, hne, hafter⟩ := failed_abort Pool.twoTables_ready
    (by decide_cbv : (ofPool .twoTables 0).Follows flushing)
    (.single (Pool.fails_tryFinish (by decide_cbv :
      (before.tryFinish .abort 1 (outageOf 0)).1 = false)))
  obtain ⟨hchanged, htorn⟩ := hafter final (Pool.succeeds_tryFinish (by decide_cbv))
  exact ⟨hlocks, torn, hne, hchanged ⟨0, 0⟩ ⟨[0, 0], [7, 0]⟩ (by decide_cbv), htorn⟩

/-- The page goes to storage before the abort, which fails to take it back there. The next one does
not try again. -/
theorem flush_outlives_abort :
    let before := ((ofPool .twoTables 0).run flushing).pool
    let ledger := (ofPool .twoTables 0).audit (.start .twoTables) flushing
    let halted := before.tryFinish .abort 1 (outageOf 0)
    let final := halted.2.tryFinish .abort 1 fun _ _ => false
    halted.1 = false ∧ final.1 = true ∧ ledger.changed 1 ⟨0, 0⟩ = some ⟨[0, 0], [7, 0]⟩ ∧
      final.2.stored? ⟨0, 0⟩ = some [7, 0] ∧ (final.2.page 0).stolen = true := by
  decide_cbv

end Session

end PagePool
