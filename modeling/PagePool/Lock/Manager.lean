import PagePool.Lock.Budget
import PagePool.Lock.Table
import PagePool.WaitFor

/-!
The lock manager: it decides lock requests by the lock table, keeps the wait-for graph in step with
its decisions, and refuses a request whose wait would close a cycle.
-/

namespace PagePool

/-- What is left to hashing: the shard of a page, and the order in which a set of transactions is
gone through. -/
structure Scatter where
  shardOf : PageId → Nat
  order : List TxId → List TxId
  order_perm : ∀ txs, (order txs).Perm txs

/-- All pages in one shard, and sets in the order in which they were built. -/
def Scatter.plain : Scatter where
  shardOf _ := 0
  order := id
  order_perm := .refl

structure LockManager where
  policy : LockPolicy
  scatter : Scatter
  table : LockTable
  graph : WaitForGraph
  /-- Shards whose waiting requests have been notified and not been woken yet. -/
  notified : List Nat

/-- What one evaluation says about a request. -/
inductive Verdict where
  | granted
  | blocked (blockers : List TxId)
  | cycle (blockers chain : List TxId)
  deriving DecidableEq, Repr

/-- What becomes of a request after an evaluation. -/
inductive Ruling where
  | granted
  | wait
  | refused (error : Error)
  deriving DecidableEq

namespace LockManager

def new (policy : LockPolicy) (scatter : Scatter) : LockManager :=
  { policy, scatter, table := .empty, graph := .empty, notified := [] }

/-- The bytes that a shard takes, padded to the lines of the machine's caches. -/
def shardSize : Nat := 128

/-- A lock manager, provided that the machine can hold its shards. -/
def ofPolicy (policy : LockPolicy) (scatter : Scatter) : Except Failure LockManager := do
  let _ ← checkedCount policy.shards shardSize
  return new policy scatter

/-- There is at least one shard. -/
def shard (manager : LockManager) (page : PageId) : Nat :=
  manager.scatter.shardOf page % max manager.policy.shards 1

/-- A request is about to be evaluated. -/
def issue (manager : LockManager) (tx : TxId) : LockManager :=
  { manager with graph := manager.graph.mark tx }

/-- The first evaluation of a request begins. -/
def enter (manager : LockManager) (tx : TxId) : LockManager :=
  { manager with graph := manager.graph.unmark tx }

/-- The transaction does not wait any more, whatever the reason. -/
def stopWaiting (manager : LockManager) (tx : TxId) : LockManager :=
  { manager with graph := manager.graph.removeWaiter tx }

/-- Grants a request that nothing blocks. A blocked one gets its edges in the wait-for graph, and
keeps them unless they close a cycle. -/
def evaluate (manager : LockManager) (request : Request) : Verdict × LockManager :=
  match manager.table.blockers request with
  | [] =>
      let granted := { manager with table := manager.table.grant request }
      (.granted, granted.stopWaiting request.tx)
  | blockers =>
      let waiting := { manager with graph := manager.graph.setEdges request.tx blockers }
      match waiting.graph.findDeadlock manager.scatter.order request.tx with
      | some chain => (.cycle blockers chain, waiting.stopWaiting request.tx)
      | none => (.blocked blockers, waiting)

/-- One evaluation of a request with the patience it has left. -/
def attempt (manager : LockManager) (request : Request) (budget : Budget) (now : Nat) :
    Ruling × LockManager :=
  match manager.evaluate request with
  | (.granted, manager) => (.granted, manager)
  | (.cycle blockers chain, manager) => (.refused (.deadlock request blockers chain), manager)
  | (.blocked blockers, manager) =>
      if budget.isExhausted manager.policy now then
        (.refused (.lockTimeout budget.retries request blockers), manager.stopWaiting request.tx)
      else
        (.wait, manager)

/-- Notifies the requests that wait for pages in the shards of some pages. -/
def notify (manager : LockManager) (pages : List PageId) : LockManager :=
  { manager with notified := manager.notified ++ pages.map manager.shard }

/-- Takes the locks of a transaction off a page, and says whether there were any. -/
def release (manager : LockManager) (tx : TxId) (page : PageId) : Bool × LockManager :=
  let released := { manager with table := manager.table.release tx page }
  if manager.table.holds tx page then (true, released.notify [page]) else (false, released)

/-- Takes away all locks of a transaction and forgets it; gives the pages it had locked. -/
def complete (manager : LockManager) (tx : TxId) : List PageId × LockManager :=
  let pages := manager.table.related tx
  let completed :=
    { manager with
      table := manager.table.complete tx
      graph := manager.graph.removeTransaction tx }
  (pages, completed.notify pages)

end LockManager

end PagePool
