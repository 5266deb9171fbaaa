import PagePool.Cache
import PagePool.Lock.Manager
import PagePool.Storage.Table

/-!
The page pool: cache, page objects, locks, registered tables and the volumes behind them, with the
steps that read and change one of these parts.
-/

namespace PagePool

structure Pool where
  pageSize : Nat
  cache : Cache
  frames : Frames
  locks : LockManager
  tables : List Table
  volumes : List Volume

/-- A step of the pool. What it has changed before it fails stays changed. -/
abbrev Action := EStateM Failure Pool

def Pool.ofConfig (config : Config) (scatter : Scatter) (pageSize : Nat) :
    Except Failure Pool := do
  let cache ← Cache.ofCapacity config.poolCapacity
  let locks ← LockManager.ofPolicy config.lock scatter
  return {
    pageSize
    cache
    frames := .empty
    locks
    tables := []
    volumes := [] }

namespace Pool

def page (pool : Pool) (ref : PageRef) : Page :=
  pool.frames.page ref

def setPage (pool : Pool) (ref : PageRef) (page : Page) : Pool :=
  { pool with frames := pool.frames.setPage ref page }

def setLatch (pool : Pool) (ref : PageRef) (latch : Latch) : Pool :=
  { pool with frames := pool.frames.setLatch ref latch }

def volume (pool : Pool) (ref : VolumeRef) : Volume :=
  pool.volumes.getD ref default

def setVolume (pool : Pool) (ref : VolumeRef) (volume : Volume) : Pool :=
  { pool with volumes := pool.volumes.set ref volume }

/-- The number of the next volume. -/
def nextVolume (pool : Pool) : VolumeRef :=
  pool.volumes.length

def addVolume (pool : Pool) (volume : Volume) : Pool :=
  { pool with volumes := pool.volumes ++ [volume] }

def table? (pool : Pool) (id : UInt32) : Option Table :=
  pool.tables.find? fun table => table.id = id

/-- An exclusively locked page may be written through a handle that its holder already has, so it
stays resident. -/
def isPinned (pool : Pool) (page : PageId) : Bool :=
  pool.locks.table.isExclusive page

end Pool

/-- Lets a step on a page object run inside the pool. -/
def onPage {Result : Type} (ref : PageRef) (step : EStateM Failure Page Result) :
    Action Result := fun pool =>
  match step (pool.page ref) with
  | .ok result page => .ok result (pool.setPage ref page)
  | .error failure page => .error failure (pool.setPage ref page)

/-- Lets a step on a volume run inside the pool. -/
def onVolume {Result : Type} (ref : VolumeRef) (step : EStateM Failure Volume Result) :
    Action Result := fun pool =>
  match step (pool.volume ref) with
  | .ok result volume => .ok result (pool.setVolume ref volume)
  | .error failure volume => .error failure (pool.setVolume ref volume)

/-- Registers a table under its number, which must be free. -/
def addTable (table : Table) : Action Unit := do
  let pool ← get
  if (pool.table? table.id).isSome then
    throw (.error (.tableTaken table.id))
  set { pool with tables := pool.tables ++ [table] }

def getTable (id : UInt32) : Action Table := do
  match (← get).table? id with
  | some table => return table
  | none => throw (.error (.tableMissing id))

/-- Puts a page object into the cache, where it must not drive out a pinned page. -/
def cachePage (id : PageId) (ref : PageRef) : Action Unit := do
  let pool ← get
  match pool.cache.put pool.frames pool.isPinned id ref with
  | .ok (_, cache) => set { pool with cache }
  | .error failure => throw (.error failure)

/-- The number of pages a table has in storage. -/
def pageCount (table : Table) : Action Nat := do
  let pool ← get
  lift ((pool.volume table.volume).pageCount pool.pageSize)

def readStored (table : Table) (id : PageId) : Action Page := do
  let pool ← get
  onVolume table.volume (Volume.readPage pool.pageSize table.id id)

def writeStored (table : Table) (page : Page) : Action Unit := do
  let pool ← get
  onVolume table.volume (Volume.writePage pool.pageSize page)

/-- Appends a page of zeros to a table's volume. -/
def allocatePage (table : Table) : Action PageId := do
  let pool ← get
  let index ← onVolume table.volume (Volume.appendPage pool.pageSize)
  return { table := table.id, index }

/-- Takes the locks of a transaction off a page. -/
def releaseLock (tx : TxId) (page : PageId) : Action Bool := do
  let pool ← get
  let (released, locks) := pool.locks.release tx page
  set { pool with locks }
  return released

/-- Takes away all locks of a transaction. -/
def completeLocks (tx : TxId) : Action (List PageId) := do
  let pool ← get
  let (pages, locks) := pool.locks.complete tx
  set { pool with locks }
  return pages

end PagePool
