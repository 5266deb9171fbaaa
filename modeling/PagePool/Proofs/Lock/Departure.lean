import PagePool.Proofs.Lock.Table

/-!
# Transactions leave in any order

The locks of a transaction and its part of the wait-for graph are taken away by a filter, so it makes
no difference which of two transactions leaves first.
-/

namespace PagePool

open LockRecord

namespace Multimap

variable {Key Value : Type} {keep keep' : Key → Value → Bool} {map : Multimap Key Value}

theorem filterEntry_bind (entry : Key × List Value) :
    (filterEntry keep entry).bind (filterEntry keep') =
      filterEntry (fun key value => keep' key value && keep key value) entry := by
  simp only [filterEntry, ← List.filter_filter]
  split
  · next h => simp [h]
  · rfl

theorem ext_entries {map other : Multimap Key Value} (h : map.entries = other.entries) :
    map = other := by
  cases map
  cases other
  cases h
  rfl

theorem filter_filter :
    (map.filter keep).filter keep' =
      map.filter fun key value => keep' key value && keep key value := by
  apply ext_entries
  simp only [filter, List.filterMap_filterMap, filterEntry_bind]

theorem filter_comm : (map.filter keep).filter keep' = (map.filter keep').filter keep := by
  simp only [filter_filter, Bool.and_comm]

theorem erase_eq_filter [DecidableEq Key] (map : Multimap Key Value) (key : Key) :
    map.erase key = map.filter fun other _ => other ≠ key := by
  apply ext_entries
  change List.filter _ _ = List.filterMap _ _
  rw [← List.filterMap_eq_filter]
  refine List.filterMap_congr fun entry hmem => ?_
  have hfilled := map.values_ne_nil entry hmem
  by_cases hkey : entry.1 = key <;> simp [filterEntry, Option.guard, hkey, hfilled]

end Multimap

namespace WaitForGraph

theorem removeTransaction_comm (graph : WaitForGraph) (first second : TxId) :
    (graph.removeTransaction first).removeTransaction second =
      (graph.removeTransaction second).removeTransaction first := by
  simp only [removeTransaction, Multimap.erase_eq_filter, Multimap.filter_filter,
    List.filter_filter, mk.injEq]
  constructor
  · congr 1
    funext waiter target
    grind
  · congr 1
    funext tx
    exact Bool.and_comm ..

end WaitForGraph

namespace LockTable

theorem complete_comm (table : LockTable) (first second : TxId) :
    (table.complete first).complete second = (table.complete second).complete first := by
  simp only [complete, Multimap.filter_comm]

theorem mem_related_complete_iff {table : LockTable} {gone tx : TxId} {page : PageId} :
    page ∈ (table.complete gone).related tx ↔ page ∈ table.related tx ∧ tx ≠ gone := by
  rw [mem_related_iff, mem_related_iff, records_complete, heldBy_filter_ne]

end LockTable

end PagePool
