import PagePool.Pool.Basic

/-!
Flushing pages to storage, and the end of a transaction by commit or abort.
-/

namespace PagePool

/-- Writes a resident page to storage if it is dirty. -/
def flushPage (id : PageId) : Action Unit := do
  let pool ← get
  match pool.cache.peek? id with
  | none => return
  | some ref =>
      let page := pool.page ref
      if page.dirty.isSome then
        let table ← getTable id.table
        writeStored table page
        modify fun pool => pool.setPage ref (pool.page ref).flushed

/-- Writes the dirty pages among those that a transaction has locked; the locks stay. -/
def flushTransaction (tx : TxId) : Action Unit := do
  ((← get).locks.table.related tx).forM flushPage

/-- Writes all dirty pages, the most recently used first. -/
def flushAll : Action Unit := do
  (← get).cache.pages.forM flushPage

/-- Drops a page from the cache; what it held is not written. -/
def discardPage (id : PageId) : Action Unit :=
  modify fun pool => { pool with cache := pool.cache.remove id }

/-- Writes a page and makes its bytes the base of the next transaction. -/
def commitPage (id : PageId) : Action Unit := do
  flushPage id
  let pool ← get
  match pool.cache.peek? id with
  | none => return
  | some ref => set (pool.setPage ref (pool.page ref).clearBeforeImage)

/-- Undoes what a transaction did to a page: its before-image comes back, in storage too if the
bytes of the transaction had gone there, and a dirty page without one is dropped. -/
def rollbackPage (tx : TxId) (id : PageId) : Action Unit := do
  let pool ← get
  match pool.cache.peek? id with
  | none => return
  | some ref =>
      let page := pool.page ref
      if page.dirty.isSome && page.dirty ≠ some tx then
        return
      match page.restored? with
      | some restored =>
          set (pool.setPage ref restored)
          if page.stolen then
            let table ← getTable id.table
            writeStored table restored
          modify fun pool => pool.setPage ref (pool.page ref).clearBeforeImage
      | none =>
          if page.dirty.isSome then
            discardPage id

/-- How a transaction ends. -/
inductive Ending where
  | commit
  | abort
  deriving DecidableEq, Repr

def finishPage (ending : Ending) (tx : TxId) (id : PageId) : Action Unit :=
  match ending with
  | .commit => commitPage id
  | .abort => rollbackPage tx id

/-- Ends a transaction: all pages it has locked are written or restored, then its locks go. -/
def finish (ending : Ending) (tx : TxId) : Action Unit := do
  ((← get).locks.table.related tx).forM (finishPage ending tx)
  let _ ← completeLocks tx

end PagePool
