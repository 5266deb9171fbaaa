import Mathlib.Data.List.Sort
import PagePool.Proofs.Lock.Departure
import PagePool.Proofs.Lock.Run
import PagePool.Proofs.WaitFor

/-!
# Locks given back

A lock table is known by the records of its pages: two tables with the same records are described
by the same text, whatever the order in which they keep their pages. So a transaction may complete,
or give its locks back page by page in any order, or shard by shard: what is left is the same, and
nobody else's locks and waits are touched.
-/

namespace PagePool

open LockRecord WaitForGraph

namespace PageId

variable {left right : PageId}

/-- The order of pages: by table, and by position within a table. -/
def Before (left right : PageId) : Prop :=
  left.table < right.table ∨ left.table = right.table ∧ left.index < right.index

theorem key_lt_iff : left.key < right.key ↔ left.Before right := by
  have hleft := left.index.toNat_lt
  have hright := right.index.toNat_lt
  simp only [key, Nat.shiftLeft_eq, Before, UInt32.lt_iff_toNat_lt, ← UInt32.toNat_inj]
  omega

theorem eq_of_key_eq (h : left.key = right.key) : left = right := by
  have hleft := left.index.toNat_lt
  have hright := right.index.toNat_lt
  simp only [key, Nat.shiftLeft_eq] at h
  obtain ⟨table, index⟩ := left
  obtain ⟨table', index'⟩ := right
  simp only [mk.injEq, ← UInt32.toNat_inj]
  dsimp only at *
  omega

theorem pairwise_le_sort (pages : List PageId) :
    (sort pages).Pairwise fun left right => left.le right = true := by
  refine List.pairwise_mergeSort (fun left middle right => ?_) (fun left right => ?_) pages
  · simp only [le, decide_eq_true_eq]
    exact Nat.le_trans
  · simp only [le, Bool.or_eq_true, decide_eq_true_eq]
    exact Nat.le_total ..

theorem pairwise_sort {pages : List PageId} (h : pages.Nodup) : (sort pages).Pairwise Before := by
  have hnodup : (sort pages).Nodup := (List.mergeSort_perm _ _).nodup_iff.2 h
  refine ((pairwise_le_sort pages).and hnodup).imp fun ⟨hle, hne⟩ => ?_
  refine key_lt_iff.1 (Nat.lt_of_le_of_ne (by simpa [le] using hle) fun heq => ?_)
  exact hne (eq_of_key_eq heq)

theorem sort_eq_of_perm {pages other : List PageId} (h : pages.Perm other) :
    sort pages = sort other := by
  have hperm : (sort pages).Perm (sort other) :=
    (List.mergeSort_perm _ _).trans (h.trans (List.mergeSort_perm _ _).symm)
  refine hperm.eq_of_pairwise (fun left right _ _ hle hge => ?_) (pairwise_le_sort _)
    (pairwise_le_sort _)
  simp only [le, decide_eq_true_eq] at hle hge
  exact eq_of_key_eq (Nat.le_antisymm hle hge)

end PageId

namespace Multimap

variable {Key Value : Type} [DecidableEq Key] {map other : Multimap Key Value}

theorem mem_keys_iff {key : Key} : key ∈ map.keys ↔ map.values key ≠ [] := by
  rw [Ne, values_eq_nil_iff, not_not]

theorem mem_entries_iff {entry : Key × List Value} :
    entry ∈ map.entries ↔ map.values entry.1 = entry.2 ∧ entry.2 ≠ [] := by
  constructor
  · exact fun hmem => ⟨map.values_eq_of_mem hmem, map.values_ne_nil entry hmem⟩
  · rintro ⟨hvalues, hfilled⟩
    have hkey : entry.1 ∈ map.keys := mem_keys_iff.2 (hvalues ▸ hfilled)
    have hentry := map.mem_entries_of_mem_keys hkey
    rwa [hvalues] at hentry

/-- Maps with the same values differ in the order of their entries only. -/
theorem perm_entries (h : ∀ key, map.values key = other.values key) :
    map.entries.Perm other.entries := by
  refine (List.perm_ext_iff_of_nodup map.nodup_keys.of_map other.nodup_keys.of_map).2 ?_
  intro entry
  rw [mem_entries_iff, mem_entries_iff, h]

theorem entries_eq_map_keys (map : Multimap Key Value) :
    map.entries = map.keys.map fun key => (key, map.values key) := by
  rw [keys, List.map_map]
  refine (List.map_id _).symm.trans (List.map_congr_left fun entry hmem => ?_)
  exact Prod.ext rfl (map.values_eq_of_mem hmem).symm

end Multimap

namespace LockTable

variable {table other : LockTable} {tx : TxId} {page : PageId}

/-- The pages on which a transaction has a lock, as the table comes upon them. -/
def held (table : LockTable) (tx : TxId) : List PageId :=
  table.pages.keys.filter fun page => (table.records page).any (·.tx = tx)

theorem related_eq_sort_held (table : LockTable) (tx : TxId) :
    table.related tx = PageId.sort (table.held tx) := rfl

theorem mem_held_iff : page ∈ table.held tx ↔ HeldBy (table.records page) tx := by
  rw [← mem_related_iff, related_eq_sort_held, PageId.sort, List.mem_mergeSort]

theorem nodup_held (table : LockTable) (tx : TxId) : (table.held tx).Nodup :=
  table.pages.nodup_keys.filter _

def SameRecords (table other : LockTable) : Prop :=
  ∀ page, table.records page = other.records page

/-- The lines of the text that describes a table, in their order. -/
def lines (table : LockTable) : List String :=
  (table.pages.entries.map describeEntry).mergeSort fun left right => !decide (right < left)

theorem describe_eq (table : LockTable) :
    table.describe = "\nlock_table: \x7b" ++ String.join table.lines ++ "\n\x7d\n" := rfl

/-- There is one line for every page that has records, and no other line. -/
theorem perm_lines (table : LockTable) :
    table.lines.Perm
      (table.pages.keys.map fun page => describeEntry (page, table.records page)) := by
  refine (List.mergeSort_perm _ _).trans (.of_eq ?_)
  rw [table.pages.entries_eq_map_keys, List.map_map]
  rfl

theorem pairwise_lines (table : LockTable) : table.lines.Pairwise (· ≤ ·) := by
  have hle : ∀ left right : String, (!decide (right < left)) = true ↔ left ≤ right :=
    fun left right => by rw [Bool.not_eq_true', decide_eq_false_iff_not, String.not_lt]
  have hsorted : table.lines.Pairwise fun left right => (!decide (right < left)) = true := by
    refine List.pairwise_mergeSort ?_ ?_ _
    · intro left middle right
      simp only [hle]
      exact String.le_trans
    · intro left right
      rw [Bool.or_eq_true, hle, hle]
      exact String.le_total left right
  exact hsorted.imp (hle _ _).1

theorem SameRecords.lines_eq (h : table.SameRecords other) : table.lines = other.lines := by
  have hperm : table.lines.Perm other.lines :=
    (List.mergeSort_perm _ _).trans
      (((Multimap.perm_entries h).map _).trans (List.mergeSort_perm _ _).symm)
  exact hperm.eq_of_pairwise (fun _ _ _ _ => String.le_antisymm) table.pairwise_lines
    other.pairwise_lines

/-- Takes the locks of a transaction off some pages, one page after the other. -/
def releaseAll (table : LockTable) (tx : TxId) (pages : List PageId) : LockTable :=
  pages.foldl (fun table page => table.release tx page) table

theorem records_releaseAll (table : LockTable) (tx : TxId) (pages : List PageId) (page : PageId) :
    (table.releaseAll tx pages).records page =
      if page ∈ pages then (table.records page).filter (·.tx ≠ tx) else table.records page := by
  induction pages generalizing table with
  | nil => rfl
  | cons first pages ih =>
      have hfirst := ih (table.release tx first)
      rw [records_release] at hfirst
      refine hfirst.trans ?_
      by_cases hpage : page = first <;> by_cases hrest : page ∈ pages <;>
        simp [hpage, hrest, List.filter_filter]

/-- A transaction that gives all its locks back, in any order, has completed. -/
theorem sameRecords_releaseAll {pages : List PageId}
    (h : ∀ page, page ∈ pages ↔ page ∈ table.held tx) :
    (table.releaseAll tx pages).SameRecords (table.complete tx) := by
  intro page
  rw [records_releaseAll, records_complete]
  split
  · rfl
  · next hoff =>
    have hnone : ∀ record ∈ table.records page, record.tx ≠ tx := fun record hmem heq =>
      hoff ((h page).2 (mem_held_iff.2 ⟨record, hmem, heq⟩))
    exact (List.filter_eq_self.2 fun record hmem => by simpa using hnone record hmem).symm

theorem complete_complete (table : LockTable) (tx : TxId) :
    (table.complete tx).complete tx = table.complete tx := by
  simp only [complete, Multimap.filter_filter, Bool.and_self]

theorem related_complete_self (table : LockTable) (tx : TxId) :
    (table.complete tx).related tx = [] := by
  refine List.eq_nil_iff_forall_not_mem.2 fun page hmem => ?_
  exact (mem_related_complete_iff.1 hmem).2 rfl

end LockTable

namespace WaitForGraph

theorem removeTransaction_removeTransaction (graph : WaitForGraph) (tx : TxId) :
    (graph.removeTransaction tx).removeTransaction tx = graph.removeTransaction tx := by
  simp only [removeTransaction, Multimap.erase_eq_filter, Multimap.filter_filter,
    List.filter_filter, Bool.and_self, mk.injEq, and_true]
  congr 1
  funext waiter target
  grind

end WaitForGraph

namespace LockManager

open LockTable

variable {manager : LockManager} {tx : TxId} {page : PageId} {index : Nat}

def shardCount (manager : LockManager) : Nat :=
  max manager.policy.shards 1

theorem shard_lt (manager : LockManager) (page : PageId) :
    manager.shard page < manager.shardCount :=
  Nat.mod_lt _ (Nat.lt_of_lt_of_le Nat.one_pos (Nat.le_max_right _ _))

/-- The part of the lock table that a shard keeps. -/
def shardTable (manager : LockManager) (index : Nat) : LockTable :=
  { pages := manager.table.pages.filter fun page _ => manager.shard page = index }

theorem records_shardTable (manager : LockManager) (index : Nat) (page : PageId) :
    (manager.shardTable index).records page =
      if manager.shard page = index then manager.table.records page else [] := by
  refine (Multimap.values_filter ..).trans ?_
  split
  · next h =>
    have hkeep : ∀ record ∈ manager.table.pages.values page,
        decide (manager.shard page = index) = true := fun _ _ => decide_eq_true h
    exact List.filter_eq_self.2 hkeep
  · next h => simp [h]

theorem mem_held_shardTable :
    page ∈ (manager.shardTable index).held tx ↔
      page ∈ manager.table.held tx ∧ manager.shard page = index := by
  rw [mem_held_iff, mem_held_iff, records_shardTable]
  split
  · next h => exact (and_iff_left h).symm
  · next h => simp [HeldBy, h]

/-- The pages of a transaction, gathered shard by shard. -/
def heldByShard (manager : LockManager) (tx : TxId) : List PageId :=
  (List.range manager.shardCount).flatMap fun index => (manager.shardTable index).held tx

theorem perm_heldByShard (manager : LockManager) (tx : TxId) :
    (manager.heldByShard tx).Perm (manager.table.held tx) := by
  have hnodup : (manager.heldByShard tx).Nodup := by
    refine List.nodup_flatMap.2 ⟨fun index _ => nodup_held _ tx, ?_⟩
    refine List.nodup_range.imp fun hne page hleft hright => hne ?_
    exact (mem_held_shardTable.1 hleft).2.symm.trans (mem_held_shardTable.1 hright).2
  refine (List.perm_ext_iff_of_nodup hnodup (nodup_held _ tx)).2 fun page => ?_
  simp only [heldByShard, List.mem_flatMap, List.mem_range, mem_held_shardTable]
  constructor
  · rintro ⟨_, _, hheld, _⟩
    exact hheld
  · exact fun hheld => ⟨_, manager.shard_lt page, hheld, rfl⟩

theorem related_eq_sort_heldByShard (manager : LockManager) (tx : TxId) :
    manager.table.related tx = PageId.sort (manager.heldByShard tx) :=
  PageId.sort_eq_of_perm (manager.perm_heldByShard tx).symm

/-- What a completion leaves in a shard is what is left when the shard gives back, page by page, the
locks that it keeps for the transaction. -/
theorem sameRecords_shardTable_complete (manager : LockManager) (tx : TxId) (index : Nat) :
    ((manager.complete tx).2.shardTable index).SameRecords
      ((manager.shardTable index).releaseAll tx ((manager.shardTable index).held tx)) := by
  intro page
  rw [sameRecords_releaseAll (fun _ => .rfl), records_complete, records_shardTable,
    records_shardTable]
  have hrecords : (manager.complete tx).2.table.records page =
      (manager.table.records page).filter (·.tx ≠ tx) := records_complete ..
  have hshard : (manager.complete tx).2.shard page = manager.shard page := rfl
  rw [hrecords, hshard]
  split
  · rfl
  · rfl

/-- A completion notifies the shards that it takes a lock from. -/
theorem mem_notified_complete (manager : LockManager) (tx : TxId) (index : Nat) :
    index ∈ (manager.table.related tx).map manager.shard ↔
      (manager.shardTable index).held tx ≠ [] := by
  rw [List.mem_map]
  constructor
  · rintro ⟨page, hmem, rfl⟩
    have hheld := mem_held_iff.2 (mem_related_iff.1 hmem)
    exact List.ne_nil_of_mem (mem_held_shardTable.2 ⟨hheld, rfl⟩)
  · intro hfilled
    obtain ⟨page, hmem⟩ := List.exists_mem_of_ne_nil _ hfilled
    obtain ⟨hheld, hshard⟩ := mem_held_shardTable.1 hmem
    exact ⟨page, mem_related_iff.2 (mem_held_iff.1 hheld), hshard⟩

def releaseAll (manager : LockManager) (tx : TxId) (pages : List PageId) : LockManager :=
  pages.foldl (fun manager page => (manager.release tx page).2) manager

theorem release_of_held (h : page ∈ manager.table.held tx) :
    (manager.release tx page).2 =
      { manager with
        table := manager.table.release tx page
        notified := manager.notified ++ [manager.shard page] } := by
  unfold release
  rw [if_pos (holds_iff.2 (mem_held_iff.1 h))]
  rfl

theorem mem_held_release_of_ne {other : PageId} (h : other ≠ page) :
    other ∈ (manager.table.release tx page).held tx ↔ other ∈ manager.table.held tx := by
  rw [mem_held_iff, mem_held_iff, records_release, if_neg h]

/-- Induction on the pages: those that are still to come keep their locks. -/
theorem releaseAll_eq {pages : List PageId} (hnodup : pages.Nodup)
    (hheld : ∀ page ∈ pages, page ∈ manager.table.held tx) :
    manager.releaseAll tx pages =
      { manager with
        table := manager.table.releaseAll tx pages
        notified := manager.notified ++ pages.map manager.shard } := by
  induction pages generalizing manager with
  | nil => simp [releaseAll, LockTable.releaseAll]
  | cons first pages ih =>
      obtain ⟨hfirst, hnodup⟩ := List.nodup_cons.1 hnodup
      have hstep := release_of_held (hheld first (List.mem_cons_self ..))
      have hrest : ∀ page ∈ pages, page ∈ (manager.release tx first).2.table.held tx :=
        fun page hmem => by
          have hne : page ≠ first := fun heq => hfirst (heq ▸ hmem)
          rw [table_release]
          exact (mem_held_release_of_ne hne).2 (hheld page (List.mem_cons_of_mem _ hmem))
      refine (ih hnodup hrest).trans ?_
      simp only [hstep, List.map_cons, List.append_assoc, List.singleton_append]
      rfl

theorem mem_keys_complete (table : LockTable) (tx : TxId) (page : PageId) :
    page ∈ (table.complete tx).pages.keys ↔ ∃ record ∈ table.records page, record.tx ≠ tx := by
  have hvalues : (table.complete tx).pages.values page = (table.records page).filter (·.tx ≠ tx) :=
    records_complete ..
  rw [Multimap.mem_keys_iff, hvalues, Ne, List.filter_eq_nil_iff]
  simp

theorem complete_again (manager : LockManager) (tx : TxId) :
    (manager.complete tx).2.complete tx = ([], (manager.complete tx).2) := by
  have hrelated := related_complete_self manager.table tx
  have htable := complete_complete manager.table tx
  have hgraph := manager.graph.removeTransaction_removeTransaction tx
  simp only [complete, notify, hrelated, htable, hgraph, List.map_nil, List.append_nil]

theorem release_fst (manager : LockManager) (tx : TxId) (page : PageId) :
    (manager.release tx page).1 = manager.table.holds tx page := by
  unfold release
  split
  · next h => exact h.symm
  · next h => exact (Bool.eq_false_iff.2 h).symm

theorem notified_release (manager : LockManager) (tx : TxId) (page : PageId) :
    (manager.release tx page).2.notified =
      manager.notified ++ if manager.table.holds tx page then [manager.shard page] else [] := by
  unfold release
  split
  · rfl
  · exact (List.append_nil _).symm

/-- **Releasing is exact.** In any state of a lock manager, with any shards: the related pages of a
transaction are the pages on which it has a lock, in ascending order, and it makes no difference to
gather them shard by shard. A completion gives these pages, takes away the records of the
transaction, with the pages and lines that are left empty, and its part of the wait-for graph, and
nothing else; a second one does nothing. A release does the same on one page, says whether there
was a lock, and leaves the graph alone. To release the related pages in any order and then to forget
the transaction is to complete it. -/
theorem releases_exactly (manager : LockManager) (tx : TxId) :
    let table := manager.table
    let related := table.related tx
    let completed := (manager.complete tx).2
    (related.Pairwise PageId.Before ∧
      (∀ page, page ∈ related ↔ table.holds tx page = true) ∧
      related = PageId.sort (manager.heldByShard tx)) ∧
    ((manager.complete tx).1 = related ∧
      (∀ page, completed.table.records page = (table.records page).filter (·.tx ≠ tx)) ∧
      (∀ page, page ∈ completed.table.pages.keys ↔ ∃ record ∈ table.records page, record.tx ≠ tx) ∧
      (∃ lines, completed.table.describe = "\nlock_table: \x7b" ++ String.join lines ++ "\n\x7d\n" ∧
        lines.Perm (completed.table.pages.keys.map fun page =>
          describeEntry (page, (table.records page).filter (·.tx ≠ tx)))) ∧
      (∀ waiter target, completed.graph.WaitsFor waiter target ↔
        manager.graph.WaitsFor waiter target ∧ waiter ≠ tx ∧ target ≠ tx) ∧
      completed.graph.undecided = manager.graph.undecided.filter (· ≠ tx) ∧
      (∀ index, (completed.shardTable index).SameRecords
        ((manager.shardTable index).releaseAll tx ((manager.shardTable index).held tx))) ∧
      completed.notified = manager.notified ++ related.map manager.shard ∧
      (∀ index, index ∈ related.map manager.shard ↔ (manager.shardTable index).held tx ≠ []) ∧
      completed.complete tx = ([], completed)) ∧
    (∀ page,
      ((manager.release tx page).1 = true ↔ table.holds tx page = true) ∧
      (∀ other, (manager.release tx page).2.table.records other =
        if other = page then (table.records other).filter (·.tx ≠ tx) else table.records other) ∧
      (manager.release tx page).2.graph = manager.graph ∧
      (manager.release tx page).2.notified =
        manager.notified ++ if table.holds tx page then [manager.shard page] else []) ∧
    (∀ order : List PageId, order.Perm related →
      let released := manager.releaseAll tx order
      released.table.SameRecords completed.table ∧
      released.table.describe = completed.table.describe ∧
      released.graph.removeTransaction tx = completed.graph ∧
      released.notified.Perm completed.notified) := by
  intro table related completed
  have hrecords : ∀ page, completed.table.records page =
      (table.records page).filter (·.tx ≠ tx) := records_complete table tx
  refine ⟨⟨PageId.pairwise_sort (table.nodup_held tx), fun page => ?_,
    manager.related_eq_sort_heldByShard tx⟩,
    ⟨rfl, hrecords, mem_keys_complete table tx, ⟨completed.table.lines, describe_eq _, ?_⟩,
      fun _ _ => waitsFor_removeTransaction_iff, rfl, manager.sameRecords_shardTable_complete tx, rfl,
      manager.mem_notified_complete tx, manager.complete_again tx⟩,
    fun page => ⟨by rw [release_fst], fun other => ?_, manager.graph_release tx page,
      manager.notified_release tx page⟩,
    fun order horder => ?_⟩
  · rw [mem_related_iff, holds_iff]
  · have hlines := completed.table.perm_lines
    simp only [hrecords] at hlines
    exact hlines
  · rw [table_release, records_release]
  · have hmem : ∀ page, page ∈ order ↔ page ∈ table.held tx := fun page => by
      rw [horder.mem_iff, mem_related_iff, mem_held_iff]
    have hnodup : order.Nodup := horder.nodup_iff.2 nodup_related
    have hsame : (table.releaseAll tx order).SameRecords completed.table :=
      sameRecords_releaseAll hmem
    simp only [releaseAll_eq hnodup fun page => (hmem page).1]
    refine ⟨hsame, ?_, rfl, (horder.map manager.shard).append_left _⟩
    rw [describe_eq, describe_eq, hsame.lines_eq]

end LockManager

end PagePool
