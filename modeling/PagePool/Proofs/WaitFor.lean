import Mathlib.Data.List.Chain
import Mathlib.Logic.Relation
import PagePool.WaitFor

/-!
# The search for a cycle of waits

A search that finds nothing leaves a set of transactions behind that holds the requester, that no
edge leaves, and none of whose members is a target that closes a cycle. So nothing that can be
reached from the requester closes a cycle, and new edges of a transaction that the search lets pass
keep an acyclic graph acyclic.
-/

namespace PagePool

namespace WaitForGraph

open Relation

variable {graph : WaitForGraph} {order : List TxId → List TxId} {requester tx other : TxId}

/-- There is an edge from a transaction to another one. -/
def WaitsFor (graph : WaitForGraph) (tx other : TxId) : Prop :=
  other ∈ graph.targets tx

def Acyclic (graph : WaitForGraph) : Prop :=
  ∀ tx, ¬TransGen graph.WaitsFor tx tx

theorem isWaiter_iff : graph.isWaiter tx = true ↔ graph.targets tx ≠ [] := by
  rw [isWaiter, List.contains_iff_mem, targets, Ne, Multimap.values_eq_nil_iff, not_not]

theorem waitsFor_removeWaiter_iff {gone : TxId} :
    (graph.removeWaiter gone).WaitsFor tx other ↔ graph.WaitsFor tx other ∧ tx ≠ gone := by
  rw [WaitsFor, targets_removeWaiter]
  split <;> simp [WaitsFor, *]

theorem waitsFor_removeTransaction_iff {gone : TxId} :
    (graph.removeTransaction gone).WaitsFor tx other ↔
      graph.WaitsFor tx other ∧ tx ≠ gone ∧ other ≠ gone := by
  rw [WaitsFor, targets_removeTransaction]
  split <;> simp [WaitsFor, *]

theorem waitsFor_setEdges_self {waiter : TxId} {targets : List TxId} :
    (graph.setEdges waiter targets).WaitsFor waiter other ↔ other ∈ targets := by
  rw [WaitsFor, targets_setEdges, if_pos rfl, List.mem_eraseDups]

theorem waitsFor_setEdges_of_ne {waiter : TxId} {targets : List TxId} (hne : tx ≠ waiter) :
    (graph.setEdges waiter targets).WaitsFor tx other ↔ graph.WaitsFor tx other := by
  rw [WaitsFor, targets_setEdges, if_neg hne, WaitsFor]

/-- All edges of a transaction stay within a set, and none of them closes a cycle. -/
def Explored (graph : WaitForGraph) (requester : TxId) (visited : List TxId) (tx : TxId) : Prop :=
  ∀ target ∈ graph.targets tx, target ∈ visited ∧ graph.closes requester target = false

theorem Explored.mono {visited larger : List TxId} (h : graph.Explored requester visited tx)
    (hsubset : visited ⊆ larger) : graph.Explored requester larger tx :=
  fun target htarget => ⟨hsubset (h target htarget).1, (h target htarget).2⟩

/-- The targets of all edges that have not been visited. -/
def unvisited (graph : WaitForGraph) (visited : List TxId) : List TxId :=
  (graph.edges.entries.flatMap Prod.snd).filter (· ∉ visited)

theorem targets_sublist (graph : WaitForGraph) (tx : TxId) :
    (graph.targets tx).Sublist (graph.edges.entries.flatMap Prod.snd) := by
  by_cases hkey : tx ∈ graph.edges.keys
  · have hentry := graph.edges.mem_entries_of_mem_keys hkey
    exact List.sublist_flatten_of_mem (List.mem_map.2 ⟨_, hentry, rfl⟩)
  · rw [targets, (Multimap.values_eq_nil_iff _).2 hkey]
    exact List.nil_sublist _

/-- What a transaction adds to the visited ones is no longer unvisited. -/
theorem length_unvisited_append (graph : WaitForGraph) (tx : TxId) (visited : List TxId)
    {fresh : List TxId} (hfresh : fresh.Perm ((graph.targets tx).filter (· ∉ visited))) :
    fresh.length + (graph.unvisited (fresh ++ visited)).length ≤
      (graph.unvisited visited).length := by
  have hsplit := List.length_eq_length_filter_add (l := graph.unvisited visited)
    (fun target => decide (target ∈ fresh))
  have hold : (graph.unvisited visited).filter (fun target => !decide (target ∈ fresh)) =
      graph.unvisited (fresh ++ visited) := by
    simp [unvisited, List.filter_filter]
  have hnew : fresh.length ≤
      ((graph.unvisited visited).filter fun target => decide (target ∈ fresh)).length := by
    have hsublist := ((graph.targets_sublist tx).filter (· ∉ visited)).filter
      fun target => decide (target ∈ fresh)
    have hall : ∀ target ∈ (graph.targets tx).filter (· ∉ visited),
        decide (target ∈ fresh) = true := fun target htarget => by
      simpa using hfresh.mem_iff.2 htarget
    rw [List.filter_eq_self.2 hall] at hsublist
    rw [hfresh.length_eq]
    exact hsublist.length_le
  rw [hold] at hsplit
  omega

/-- Where a search stands: what it has visited has been explored or is on the stack. -/
structure Frontier (graph : WaitForGraph) (requester : TxId) (visited : List TxId)
    (stack : List (TxId × List TxId)) : Prop where
  mem_visited : ∀ entry ∈ stack, entry.1 ∈ visited
  explored : ∀ tx ∈ visited, tx ∉ stack.map Prod.fst → graph.Explored requester visited tx

/-- What the search puts on its stack for the unvisited targets of a transaction. -/
def pushed (tx : TxId) (trail fresh : List TxId) : List (TxId × List TxId) :=
  (fresh.map fun target => (target, tx :: trail)).reverse

/-- A transaction none of whose targets closes a cycle makes room for its unvisited targets. -/
theorem Frontier.push {visited trail targets : List TxId} {stack : List (TxId × List TxId)}
    (h : graph.Frontier requester visited ((tx, trail) :: stack))
    (htargets : targets.Perm (graph.targets tx))
    (hfind : targets.find? (graph.closes requester) = none) :
    graph.Frontier requester (targets.filter (· ∉ visited) ++ visited)
      (pushed tx trail (targets.filter (· ∉ visited)) ++ stack) where
  mem_visited entry hentry := by
    rcases List.mem_append.1 hentry with hentry | hentry
    · obtain ⟨target, htarget, rfl⟩ := List.mem_map.1 (List.mem_reverse.1 hentry)
      exact List.mem_append_left _ htarget
    · exact List.mem_append_right _ (h.mem_visited entry (List.mem_cons_of_mem _ hentry))
  explored other hother hoff := by
    have hnot : other ∉ targets.filter (· ∉ visited) ∧ other ∉ stack.map Prod.fst := by
      simpa [pushed, not_or] using hoff
    have hvisited : other ∈ visited := (List.mem_append.1 hother).resolve_left hnot.1
    by_cases heq : other = tx
    · subst heq
      intro target htarget
      have hmem := htargets.mem_iff.2 htarget
      refine ⟨?_, by simpa using List.find?_eq_none.1 hfind target hmem⟩
      by_cases hseen : target ∈ visited
      · exact List.mem_append_right _ hseen
      · exact List.mem_append_left _ (List.mem_filter.2 ⟨hmem, by simpa using hseen⟩)
    · refine (h.explored other hvisited ?_).mono (List.subset_append_right _ _)
      simpa [heq] using hnot.2

/-- Induction on the fuel, which is enough for all that is on the stack or will ever be. -/
theorem closed_of_search_eq_none (horder : ∀ txs, (order txs).Perm txs) {fuel : Nat}
    {visited : List TxId} {stack : List (TxId × List TxId)}
    (h : graph.Frontier requester visited stack)
    (hfuel : stack.length + (graph.unvisited visited).length ≤ fuel)
    (hnone : graph.search order requester fuel visited stack = none) :
    ∃ closed, visited ⊆ closed ∧ ∀ tx ∈ closed, graph.Explored requester closed tx := by
  induction fuel generalizing visited stack with
  | zero =>
      have hnil : stack = [] := List.eq_nil_of_length_eq_zero (by omega)
      subst hnil
      exact ⟨visited, List.Subset.refl _, fun tx htx => h.explored tx htx (by simp)⟩
  | succ fuel ih =>
      cases stack with
      | nil => exact ⟨visited, List.Subset.refl _, fun tx htx => h.explored tx htx (by simp)⟩
      | cons top stack =>
          obtain ⟨current, trail⟩ := top
          simp only [search] at hnone
          split at hnone
          · cases hnone
          · next hfind =>
            have htargets := horder (graph.targets current)
            have hless := graph.length_unvisited_append current visited
              (htargets.filter (· ∉ visited))
            have hnext := h.push htargets hfind
            obtain ⟨closed, hsubset, hclosed⟩ := ih hnext (by
              simp only [pushed, List.length_append, List.length_reverse, List.length_map,
                List.length_cons] at hfuel ⊢
              omega) hnone
            exact ⟨closed, fun tx htx => hsubset (List.mem_append_right _ htx), hclosed⟩

/-- **The search misses nothing.** When it finds no cycle, no transaction that can be reached from
the requester closes one. -/
theorem not_closes_of_findDeadlock_eq_none (horder : ∀ txs, (order txs).Perm txs)
    (hnone : graph.findDeadlock order requester = none)
    (hreach : TransGen graph.WaitsFor requester tx) : graph.closes requester tx = false := by
  have hfuel : [(requester, ([] : List TxId))].length + (graph.unvisited [requester]).length ≤
      graph.searchBound := by
    have hle : (graph.unvisited [requester]).length ≤ _ := List.length_filter_le _ _
    simp only [searchBound, List.length_singleton]
    omega
  have hfrontier : graph.Frontier requester [requester] [(requester, [])] := ⟨by simp, by simp⟩
  obtain ⟨closed, hsubset, hclosed⟩ := closed_of_search_eq_none horder hfrontier hfuel hnone
  have hstart : requester ∈ closed := hsubset (List.mem_singleton.2 rfl)
  have hend : tx ∈ closed ∧ graph.closes requester tx = false := by
    induction hreach with
    | single hedge => exact hclosed _ hstart _ hedge
    | tail _ hedge ih => exact hclosed _ ih.1 _ hedge
  exact hend.2

/-- A way back from a transaction to the requester, against the edges. -/
structure Backward (graph : WaitForGraph) (requester : TxId) (way : List TxId) : Prop where
  isChain : way.IsChain (flip graph.WaitsFor)
  ends : ∃ middle, way = middle ++ [requester]

theorem Backward.cons {trail : List TxId} (h : graph.Backward requester (tx :: trail))
    (hedge : graph.WaitsFor tx other) : graph.Backward requester (other :: tx :: trail) where
  isChain := .cons_cons hedge h.isChain
  ends := by
    obtain ⟨middle, hmiddle⟩ := h.ends
    exact ⟨other :: middle, by rw [hmiddle, List.cons_append]⟩

/-- Induction on the fuel: every entry of the stack has come from the requester. -/
theorem backward_of_search_eq_some (horder : ∀ txs, (order txs).Perm txs) {fuel : Nat}
    {visited chain : List TxId} {stack : List (TxId × List TxId)}
    (hstack : ∀ entry ∈ stack, graph.Backward requester (entry.1 :: entry.2))
    (hsome : graph.search order requester fuel visited stack = some chain) :
    ∃ target way, chain = (target :: way).reverse ∧ graph.closes requester target = true ∧
      graph.Backward requester way ∧ graph.Backward requester (target :: way) := by
  induction fuel generalizing visited stack with
  | zero => simp [search] at hsome
  | succ fuel ih =>
      cases stack with
      | nil => simp [search] at hsome
      | cons top stack =>
          obtain ⟨current, trail⟩ := top
          have hway : graph.Backward requester (current :: trail) := hstack (current, trail) (by simp)
          have hedge : ∀ target ∈ order (graph.targets current), graph.WaitsFor current target :=
            fun target htarget => (horder _).mem_iff.1 htarget
          simp only [search] at hsome
          split at hsome
          · next target hfind =>
            have hmem := List.mem_of_find?_eq_some hfind
            refine ⟨target, current :: trail, (Option.some.inj hsome).symm,
              List.find?_some hfind, hway, hway.cons (hedge target hmem)⟩
          · refine ih (fun entry hentry => ?_) hsome
            rcases List.mem_append.1 hentry with hentry | hentry
            · obtain ⟨target, htarget, rfl⟩ := List.mem_map.1 (List.mem_reverse.1 hentry)
              exact hway.cons (hedge target (List.mem_of_mem_filter htarget))
            · exact hstack entry (List.mem_cons_of_mem _ hentry)

/-- **What the search finds is there.** Its chain leads along edges from the requester to a
transaction that closes a cycle. -/
theorem isChain_of_findDeadlock_eq_some (horder : ∀ txs, (order txs).Perm txs)
    {chain : List TxId} (hsome : graph.findDeadlock order requester = some chain) :
    ∃ middle target, chain = requester :: middle ++ [target] ∧
      graph.closes requester target = true ∧ chain.IsChain graph.WaitsFor := by
  have hstart : ∀ entry ∈ [(requester, ([] : List TxId))],
      graph.Backward requester (entry.1 :: entry.2) := by
    simpa using (⟨.singleton _, [], rfl⟩ : graph.Backward requester [requester])
  obtain ⟨target, way, hchain, hcloses, ⟨-, middle, hmiddle⟩, hback⟩ :=
    backward_of_search_eq_some horder hstart hsome
  refine ⟨middle.reverse, target, by simp [hchain, hmiddle], hcloses, ?_⟩
  rw [hchain, List.isChain_reverse]
  exact hback.isChain

theorem Acyclic.mono {larger : WaitForGraph} (h : larger.Acyclic)
    (hsubset : ∀ tx other, graph.WaitsFor tx other → larger.WaitsFor tx other) : graph.Acyclic :=
  fun tx hcycle => h tx (TransGen.mono hsubset tx tx hcycle)

theorem acyclic_empty : empty.Acyclic := by
  intro tx hcycle
  obtain ⟨other, hedge, _⟩ := TransGen.head'_iff.1 hcycle
  simp [WaitsFor] at hedge

theorem Acyclic.removeWaiter (h : graph.Acyclic) (tx : TxId) : (graph.removeWaiter tx).Acyclic :=
  h.mono fun _ _ hedge => (waitsFor_removeWaiter_iff.1 hedge).1

theorem Acyclic.removeTransaction (h : graph.Acyclic) (tx : TxId) :
    (graph.removeTransaction tx).Acyclic :=
  h.mono fun _ _ hedge => (waitsFor_removeTransaction_iff.1 hedge).1

/-- A way that new edges of one transaction have opened leads through that transaction. -/
theorem transGen_setEdges {waiter : TxId} {targets : List TxId} {first last : TxId}
    (h : TransGen (graph.setEdges waiter targets).WaitsFor first last) :
    TransGen graph.WaitsFor first last ∨
      ReflTransGen (graph.setEdges waiter targets).WaitsFor first waiter ∧
        TransGen (graph.setEdges waiter targets).WaitsFor waiter last := by
  induction h with
  | single hedge =>
      by_cases heq : first = waiter
      · subst heq
        exact .inr ⟨.refl, .single hedge⟩
      · exact .inl (.single ((waitsFor_setEdges_of_ne heq).1 hedge))
  | @tail middle last hway hedge ih =>
      by_cases heq : middle = waiter
      · subst heq
        exact .inr ⟨hway.to_reflTransGen, .single hedge⟩
      · rcases ih with ih | ⟨hfirst, hmiddle⟩
        · exact .inl (ih.tail ((waitsFor_setEdges_of_ne heq).1 hedge))
        · exact .inr ⟨hfirst, hmiddle.tail hedge⟩

/-- New edges that the search has found nothing wrong with close no cycle. -/
theorem Acyclic.setEdges (h : graph.Acyclic) (horder : ∀ txs, (order txs).Perm txs)
    {waiter : TxId} {targets : List TxId}
    (hnone : (graph.setEdges waiter targets).findDeadlock order waiter = none) :
    (graph.setEdges waiter targets).Acyclic := by
  intro tx hcycle
  rcases transGen_setEdges hcycle with hold | ⟨hto, hfrom⟩
  · exact h tx hold
  · have hself := hfrom.trans_left hto
    have hcloses := not_closes_of_findDeadlock_eq_none horder hnone hself
    simp [closes] at hcloses

end WaitForGraph

end PagePool
