import PagePool.Pool.Basic

/-!
Opening tables: a volume joins the pool, and a table stands on it. Registering the table is a step
of its own.
-/

namespace PagePool

/-- The volume of the file at a path, which is created if there is none. -/
def openVolume (directory : Directory) (path : String) : Action (VolumeRef × Directory) := do
  let pool ← get
  match directory.openFile path pool.nextVolume with
  | .error error => throw (.error error)
  | .ok opened =>
      match opened.created with
      | some volume => set (pool.addVolume volume)
      | none => pure ()
      return (opened.volume, opened.directory)

/-- Replaces all that a file holds. -/
def writeFile (directory : Directory) (path : String) (bytes : Bytes) : Action Directory := do
  let (volume, directory) ← openVolume directory path
  modify (·.setVolume volume (.ofMedium (.file (.ofBytes bytes))))
  return directory

/-- A heap table in the file at a path. -/
def openHeap (directory : Directory) (path : String) (id : UInt32) (schema : Schema) :
    Action (Table × Directory) := do
  let (volume, directory) ← openVolume directory path
  let layout ← lift (Layout.ofSchema schema (← get).pageSize)
  return ({ id, volume, kind := .heap layout }, directory)

/-- A table of stamps over a number of pages in memory. -/
def openStamps (id : UInt32) (pages : Nat) (mode : LockMode) : Action Table := do
  let pool ← get
  let volume ← lift (Volume.numbered pool.pageSize pages)
  set (pool.addVolume volume)
  return { id, volume := pool.nextVolume, kind := .stamps mode }

end PagePool
