import PagePool.Storage.File

/-!
Volumes: where the pages of a table are stored. A volume is a file cut into pages, or a list of
pages in memory; its reads and writes may be made to fail, and its reads may be held up at a gate.
-/

namespace PagePool

/-- Which of the calls to come fail, counted from the first one on. -/
structure Faults where
  calls : Nat
  fails : Nat → Bool

namespace Faults

def never : Faults :=
  { calls := 0, fails := fun _ => false }

def always : Faults :=
  { calls := 0, fails := fun _ => true }

def ofBool (failing : Bool) : Faults :=
  if failing then always else never

/-- Whether the next call fails, and what the plan is after it. -/
def next (faults : Faults) : Bool × Faults :=
  (faults.fails faults.calls, { faults with calls := faults.calls + 1 })

end Faults

inductive Medium where
  | file (file : File)
  | memory (pages : List Bytes)

instance : Inhabited Medium :=
  ⟨.memory []⟩

structure Volume where
  medium : Medium
  readFaults : Faults
  writeFaults : Faults
  /-- A read behind a closed gate has its bytes, but does not hand them out before the gate
  opens. -/
  gateClosed : Bool
  /-- Pages that were read from memory, and pages that were written to it. -/
  reads : Nat
  writes : Nat

namespace Volume

def ofMedium (medium : Medium) : Volume :=
  { medium, readFaults := .never, writeFaults := .never, gateClosed := false
    reads := 0, writes := 0 }

instance : Inhabited Volume :=
  ⟨ofMedium default⟩

/-- The bytes that a page in memory takes before any of its contents. -/
def entrySize : Nat := 24

/-- Pages in memory that carry their own numbers in the first byte. A page without bytes has no room
for it. -/
def numbered (pageSize : Nat) : Nat → Except Failure Volume
  | 0 => return ofMedium (.memory [])
  | pages => do
      let count ← checkedCount pages entrySize
      let blank ← Page.fill pageSize []
      let pages ← (List.range count).mapM fun i => Bytes.splice blank 0 [UInt8.ofNat i]
      return ofMedium (.memory pages)

/-- A file that no byte can be written to. -/
def full : Volume :=
  { ofMedium (.file .empty) with writeFaults := .always }

/-- The error of a write that fails. -/
def writeError (volume : Volume) : Error :=
  match volume.medium with
  | .file _ => .io .noSpace
  | .memory _ => .io .writeFailed

def pageCount (volume : Volume) (pageSize : Nat) : Except Failure Nat :=
  match volume.medium with
  | .file file => file.pageCount pageSize
  | .memory pages => .ok pages.length

/-- One more call to read, which may fail. -/
def callRead : EStateM Failure Volume Unit := do
  let volume ← get
  let (failing, plan) := volume.readFaults.next
  set { volume with readFaults := plan }
  if failing then throw (.error (.io .readFailed))

def callWrite : EStateM Failure Volume Unit := do
  let volume ← get
  let (failing, plan) := volume.writeFaults.next
  set { volume with writeFaults := plan }
  if failing then throw (.error volume.writeError)

/-- Reads a page on behalf of the table with the given number. -/
def readPage (pageSize : Nat) (table : UInt32) (id : PageId) : EStateM Failure Volume Page := do
  callRead
  let volume ← get
  let index := id.index.toNat
  match volume.medium with
  | .file file =>
      if (← lift (file.pageCount pageSize)) ≤ index then
        throw (.error (.beyondEnd id table))
      lift (Page.ofBytes pageSize id (file.read (index * pageSize) pageSize))
  | .memory pages =>
      match pages[index]? with
      | none => throw (.error (.pageMissing id))
      | some data =>
          set { volume with reads := volume.reads + 1 }
          lift (Page.ofBytes pageSize id data)

/-- Writes bytes as the page with the given index. A file takes them wherever they are, memory only
in place of a page it has. -/
def writeAt (pageSize index : Nat) (data : Bytes) : EStateM Failure Volume Unit := do
  let volume ← get
  match volume.medium with
  | .file file =>
      if data ≠ [] then
        callWrite
        modify ({ · with medium := .file (file.write (index * pageSize) data) })
  | .memory pages =>
      callWrite
      if index < pages.length then
        modify fun volume =>
          { volume with medium := .memory (pages.set index data), writes := volume.writes + 1 }
      else
        throw (.fault .outOfRange)

def writePage (pageSize : Nat) (page : Page) : EStateM Failure Volume Unit :=
  writeAt pageSize page.id.index.toNat page.data

/-- Appends a page of zeros to a file and gives its index, cut to 32 bits. -/
def appendPage (pageSize : Nat) : EStateM Failure Volume UInt32 := do
  let count ← lift ((← get).pageCount pageSize)
  let index := UInt32.ofNat count
  writeAt pageSize index.toNat (Bytes.zeros pageSize)
  return index

end Volume

end PagePool
