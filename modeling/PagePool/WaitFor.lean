import PagePool.Lock.Mode
import PagePool.Multimap

/-!
The wait-for graph: which transaction waits for which, and which ones are about to wait without
anybody knowing yet for whom.
-/

namespace PagePool

structure WaitForGraph where
  edges : Multimap TxId TxId
  /-- Transactions that have issued a request nobody has evaluated yet. -/
  undecided : List TxId

namespace WaitForGraph

def empty : WaitForGraph :=
  { edges := .empty, undecided := [] }

/-- The transactions that a transaction waits for. -/
def targets (graph : WaitForGraph) (tx : TxId) : List TxId :=
  graph.edges.values tx

def isWaiter (graph : WaitForGraph) (tx : TxId) : Bool :=
  graph.edges.keys.contains tx

def addEdge (graph : WaitForGraph) (waiter target : TxId) : WaitForGraph :=
  let known := graph.targets waiter
  { graph with
    edges := graph.edges.put waiter (if target ∈ known then known else known ++ [target]) }

/-- Replaces the edges of a waiter. -/
def setEdges (graph : WaitForGraph) (waiter : TxId) (targets : List TxId) : WaitForGraph :=
  { graph with edges := graph.edges.put waiter targets.eraseDups }

/-- The transaction waits for nobody any more. -/
def removeWaiter (graph : WaitForGraph) (tx : TxId) : WaitForGraph :=
  { graph with edges := graph.edges.erase tx }

def mark (graph : WaitForGraph) (tx : TxId) : WaitForGraph :=
  { graph with undecided := tx :: graph.undecided.filter (· ≠ tx) }

def unmark (graph : WaitForGraph) (tx : TxId) : WaitForGraph :=
  { graph with undecided := graph.undecided.filter (· ≠ tx) }

/-- Forgets a transaction together with the edges that lead to it. -/
def removeTransaction (graph : WaitForGraph) (tx : TxId) : WaitForGraph :=
  { edges := (graph.edges.erase tx).filter fun _ target => target ≠ tx
    undecided := graph.undecided.filter (· ≠ tx) }

@[simp]
theorem targets_empty (tx : TxId) : empty.targets tx = [] := rfl

theorem targets_setEdges (graph : WaitForGraph) (waiter tx : TxId) (targets : List TxId) :
    (graph.setEdges waiter targets).targets tx =
      if tx = waiter then targets.eraseDups else graph.targets tx :=
  Multimap.values_put graph.edges waiter tx targets.eraseDups

theorem targets_removeWaiter (graph : WaitForGraph) (waiter tx : TxId) :
    (graph.removeWaiter waiter).targets tx = if tx = waiter then [] else graph.targets tx :=
  Multimap.values_erase graph.edges waiter tx

theorem removeWaiter_setEdges (graph : WaitForGraph) (waiter : TxId) (targets : List TxId) :
    (graph.setEdges waiter targets).removeWaiter waiter = graph.removeWaiter waiter := by
  simp only [removeWaiter, setEdges, Multimap.erase_put]

theorem targets_removeTransaction (graph : WaitForGraph) (gone tx : TxId) :
    (graph.removeTransaction gone).targets tx =
      if tx = gone then [] else (graph.targets tx).filter (· ≠ gone) := by
  unfold removeTransaction targets
  rw [Multimap.values_filter, Multimap.values_erase]
  split <;> simp

@[simp]
theorem targets_mark (graph : WaitForGraph) (marked tx : TxId) :
    (graph.mark marked).targets tx = graph.targets tx := rfl

@[simp]
theorem targets_unmark (graph : WaitForGraph) (marked tx : TxId) :
    (graph.unmark marked).targets tx = graph.targets tx := rfl

/-- A wait for this transaction closes a cycle, or has to be taken for one because the transaction
is about to wait itself. -/
def closes (graph : WaitForGraph) (requester tx : TxId) : Bool :=
  tx = requester || graph.undecided.contains tx

/-- Depth-first search over a stack of transactions, each with the way that led to it, the latest
first. Every transaction is visited once. -/
def search (graph : WaitForGraph) (order : List TxId → List TxId) (requester : TxId) :
    Nat → List TxId → List (TxId × List TxId) → Option (List TxId)
  | 0, _, _ => none
  | _ + 1, _, [] => none
  | fuel + 1, visited, (tx, trail) :: stack =>
      let targets := order (graph.targets tx)
      match targets.find? (graph.closes requester) with
      | some target => some (target :: tx :: trail).reverse
      | none =>
          let fresh := targets.filter (· ∉ visited)
          graph.search order requester fuel (fresh ++ visited)
            ((fresh.map fun target => (target, tx :: trail)).reverse ++ stack)

/-- No transaction other than the requester is pushed without an edge that leads to it. -/
def searchBound (graph : WaitForGraph) : Nat :=
  2 + (graph.edges.entries.flatMap Prod.snd).length

/-- The chain of waits from the requester back to itself, or to a transaction that is about to wait.
The targets of each transaction are gone through in the given order. -/
def findDeadlock (graph : WaitForGraph) (order : List TxId → List TxId) (requester : TxId) :
    Option (List TxId) :=
  graph.search order requester graph.searchBound [requester] [(requester, [])]

/-- The targets of a transaction in ascending order. -/
def waitingOn (graph : WaitForGraph) (tx : TxId) : List TxId :=
  (graph.targets tx).mergeSort fun left right => decide (left ≤ right)

end WaitForGraph

end PagePool
