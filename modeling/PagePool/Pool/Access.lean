import PagePool.Pool.Basic

/-!
Access to pages whose lock is held: from the cache, or from storage through the cache.
-/

namespace PagePool

/-- A page on its way to whoever asked for it. -/
inductive Fetched where
  | resident (ref : PageRef)
  | loaded (page : Page)

/-- Looks a page up in the cache, and reads it from the storage of its table if it is not there. -/
def fetch (id : PageId) : Action Fetched := do
  let pool ← get
  let (found, cache) := pool.cache.get? id
  set { pool with cache }
  match found with
  | some ref => return .resident ref
  | none =>
      let table ← getTable id.table
      return .loaded (← readStored table id)

/-- Puts a page read from storage into the cache, unless it has come there in the meantime. -/
def install (page : Page) : Action PageRef := do
  let pool ← get
  let (found, cache) := pool.cache.get? page.id
  set { pool with cache }
  match found with
  | some ref => return ref
  | none =>
      let ref := pool.frames.next
      cachePage page.id ref
      modify fun pool => { pool with frames := pool.frames.alloc page }
      return ref

/-- Whether reads of a page have to wait for a gate. -/
def Pool.isGated (pool : Pool) (id : PageId) : Bool :=
  ((pool.table? id.table).map fun table => (pool.volume table.volume).gateClosed).getD false

/-- Marks the pages that a table's own insertion or deletion has changed, for which their writer
must hold exclusive locks, and makes sure that they are resident. -/
def holdDirty (tx : TxId) : List PageRef → Action Unit
  | [] => return
  | ref :: rest => do
      let pool ← get
      let page := pool.page ref
      if pool.locks.table.mode? tx page.id ≠ some .exclusive then
        throw (.fault (.unlockedChange tx page.id))
      set (pool.setPage ref (page.mark tx true))
      cachePage page.id ref
      holdDirty tx rest

end PagePool
