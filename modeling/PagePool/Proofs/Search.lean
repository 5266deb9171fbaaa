import Mathlib
import PagePool.Proofs.WaitFor

/-!
# The search for a cycle is exact

The search is a loop that pops one transaction after the other from its stack. The loop comes to an
end on every graph, and it ends with what `findDeadlock` gives. It ends with a chain exactly if some
way leads from the requester back to it or to a transaction that is about to wait, and then the
chain is such a way, on which nobody but the last transaction may have been before.
-/

namespace PagePool

namespace WaitForGraph

open Relation

variable {graph : WaitForGraph} {order : List TxId → List TxId} {requester tx : TxId}

/-- What the loop of the search ends with, from what it has visited and what is on its stack. There
is no bound on the number of rounds. -/
inductive Searches (graph : WaitForGraph) (order : List TxId → List TxId) (requester : TxId) :
    List TxId → List (TxId × List TxId) → Option (List TxId) → Prop where
  | exhausted {visited : List TxId} : Searches graph order requester visited [] none
  | closed {visited trail : List TxId} {stack : List (TxId × List TxId)} {tx target : TxId}
      (hfind : (order (graph.targets tx)).find? (graph.closes requester) = some target) :
      Searches graph order requester visited ((tx, trail) :: stack)
        (some (target :: tx :: trail).reverse)
  | expanded {visited trail fresh : List TxId} {stack : List (TxId × List TxId)} {tx : TxId}
      {result : Option (List TxId)}
      (hfind : (order (graph.targets tx)).find? (graph.closes requester) = none)
      (hfresh : fresh = (order (graph.targets tx)).filter (· ∉ visited))
      (hrest : Searches graph order requester (fresh ++ visited) (pushed tx trail fresh ++ stack)
        result) :
      Searches graph order requester visited ((tx, trail) :: stack) result

section Loop

variable {visited : List TxId} {stack : List (TxId × List TxId)} {result other : Option (List TxId)}

/-- Every round is determined by what the loop has come to. -/
theorem Searches.unique (h : graph.Searches order requester visited stack result)
    (h' : graph.Searches order requester visited stack other) : other = result := by
  induction h with
  | exhausted =>
      cases h'
      rfl
  | closed hfind =>
      cases h' with
      | closed hfind' => rw [Option.some.inj (hfind'.symm.trans hfind)]
      | expanded hfind' => cases hfind'.symm.trans hfind
  | expanded hfind hfresh _ ih =>
      cases h' with
      | closed hfind' => cases hfind'.symm.trans hfind
      | expanded _ hfresh' hrest' =>
          subst hfresh hfresh'
          exact ih hrest'

/-- The loop ends: a transaction comes onto the stack once, so all that is on the stack or has not
been visited yet bounds the rounds that are left. -/
theorem searches_search (horder : ∀ txs, (order txs).Perm txs) {fuel : Nat}
    (hfuel : stack.length + (graph.unvisited visited).length ≤ fuel) :
    graph.Searches order requester visited stack
      (graph.search order requester fuel visited stack) := by
  induction fuel generalizing visited stack with
  | zero =>
      obtain rfl : stack = [] := List.eq_nil_of_length_eq_zero (by omega)
      exact .exhausted
  | succ fuel ih =>
      cases stack with
      | nil => exact .exhausted
      | cons top stack =>
          obtain ⟨current, trail⟩ := top
          simp only [search]
          split
          · next target hfind => exact .closed hfind
          · next hfind =>
            refine .expanded hfind rfl (ih ?_)
            have hless := graph.length_unvisited_append current visited
              ((horder (graph.targets current)).filter (· ∉ visited))
            simp only [pushed, List.length_append, List.length_reverse, List.length_map,
              List.length_cons] at hfuel ⊢
            omega

/-- Nobody is on a way twice, since whoever extends one has not been visited before. -/
theorem Searches.nodup (h : graph.Searches order requester visited stack result)
    (hstack : ∀ entry ∈ stack,
      (entry.1 :: entry.2).Nodup ∧ ∀ tx ∈ entry.1 :: entry.2, tx ∈ visited) :
    ∀ chain ∈ result, chain.dropLast.Nodup := by
  induction h with
  | exhausted => simp
  | @closed _ trail _ tx target _ =>
      intro chain hchain
      obtain rfl := Option.mem_some_iff.1 hchain
      have hway := (hstack (tx, trail) List.mem_cons_self).1
      rw [List.reverse_cons, List.dropLast_concat]
      exact (List.reverse_perm _).nodup_iff.2 hway
  | @expanded visited trail fresh stack tx _ _ hfresh _ ih =>
      obtain ⟨hway, hseen⟩ := hstack (tx, trail) List.mem_cons_self
      refine ih fun entry hentry => ?_
      rcases List.mem_append.1 hentry with hpushed | hold
      · obtain ⟨target, htarget, rfl⟩ := List.mem_map.1 (List.mem_reverse.1 hpushed)
        have hunseen : target ∉ visited := by
          rw [hfresh] at htarget
          simpa using (List.mem_filter.1 htarget).2
        refine ⟨List.nodup_cons.2 ⟨fun hmem => hunseen (hseen target hmem), hway⟩, ?_⟩
        intro other hother
        rcases List.mem_cons.1 hother with rfl | hother
        · exact List.mem_append_left _ htarget
        · exact List.mem_append_right _ (hseen other hother)
      · obtain ⟨hnodup, hvisited⟩ := hstack entry (List.mem_cons_of_mem _ hold)
        exact ⟨hnodup, fun other hother => List.mem_append_right _ (hvisited other hother)⟩

end Loop

theorem closes_iff : graph.closes requester tx = true ↔ tx = requester ∨ tx ∈ graph.undecided := by
  simp [closes]

theorem searches_findDeadlock (horder : ∀ txs, (order txs).Perm txs) :
    graph.Searches order requester [requester] [(requester, [])]
      (graph.findDeadlock order requester) := by
  apply searches_search horder
  have hle : (graph.unvisited [requester]).length ≤ _ := List.length_filter_le _ _
  simp only [searchBound, List.length_singleton]
  omega

/-- The last transaction of a chain can be reached from the first. -/
theorem transGen_of_isChain {middle : List TxId}
    (h : (requester :: middle ++ [tx]).IsChain graph.WaitsFor) :
    TransGen graph.WaitsFor requester tx := by
  rw [List.cons_append] at h
  exact (h.imp fun _ _ => TransGen.single).rel_cons (List.mem_append_right _ (by simp))

/-- **The search is exact.** It ends on every graph, in whatever order targets are gone through. It
finds a chain exactly if some way closes a cycle, and the chain is such a way. -/
theorem findDeadlock_exact (graph : WaitForGraph) (horder : ∀ txs, (order txs).Perm txs)
    (requester : TxId) :
    (∀ result, graph.Searches order requester [requester] [(requester, [])] result ↔
      result = graph.findDeadlock order requester) ∧
    ((graph.findDeadlock order requester).isSome ↔
      ∃ last, TransGen graph.WaitsFor requester last ∧
        (last = requester ∨ last ∈ graph.undecided)) ∧
    ∀ chain, graph.findDeadlock order requester = some chain →
      ∃ middle last, chain = requester :: middle ++ [last] ∧ chain.IsChain graph.WaitsFor ∧
        (last = requester ∨ last ∈ graph.undecided) ∧ (requester :: middle).Nodup := by
  have hends : graph.Searches order requester [requester] [(requester, [])]
      (graph.findDeadlock order requester) := searches_findDeadlock horder
  have hchain : ∀ chain, graph.findDeadlock order requester = some chain →
      ∃ middle last, chain = requester :: middle ++ [last] ∧ chain.IsChain graph.WaitsFor ∧
        (last = requester ∨ last ∈ graph.undecided) ∧ (requester :: middle).Nodup := by
    intro chain hsome
    obtain ⟨middle, last, rfl, hcloses, hway⟩ := isChain_of_findDeadlock_eq_some horder hsome
    refine ⟨middle, last, rfl, hway, closes_iff.1 hcloses, ?_⟩
    have hnodup := hends.nodup (by simp) _ hsome
    rwa [List.dropLast_concat] at hnodup
  refine ⟨fun result => ⟨fun h => hends.unique h, fun h => h ▸ hends⟩, ⟨?_, ?_⟩, hchain⟩
  · intro hsome
    obtain ⟨chain, hsome⟩ := Option.isSome_iff_exists.1 hsome
    obtain ⟨middle, last, rfl, hway, hlast, _⟩ := hchain chain hsome
    exact ⟨last, transGen_of_isChain hway, hlast⟩
  · rintro ⟨last, hreach, hlast⟩
    rw [Option.isSome_iff_ne_none]
    intro hnone
    have hopen := not_closes_of_findDeadlock_eq_none horder hnone hreach
    rw [closes_iff.2 hlast] at hopen
    cases hopen

/-- Two ways lead from 1 to 4, which waits in a cycle without 1 and for 5, which is about to
wait. -/
def crossroads : WaitForGraph :=
  ((((empty.setEdges 1 [2, 3]).setEdges 2 [4]).setEdges 3 [4]).setEdges 4 [2, 5]).mark 5

/-- The targets are gone through from the last to the first. -/
theorem findDeadlock_crossroads :
    crossroads.Searches List.reverse 1 [1] [(1, [])] (some [1, 2, 4, 5]) ∧
      ∃ last, TransGen crossroads.WaitsFor 1 last ∧ (last = 1 ∨ last ∈ crossroads.undecided) := by
  obtain ⟨hends, hsome, _⟩ := findDeadlock_exact crossroads List.reverse_perm 1
  have hfound : some [1, 2, 4, 5] = crossroads.findDeadlock List.reverse 1 := by decide_cbv
  exact ⟨(hends _).2 hfound, hsome.1 (by rw [← hfound]; rfl)⟩

end WaitForGraph

end PagePool
