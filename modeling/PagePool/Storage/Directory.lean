import PagePool.Storage.Volume

/-!
The directory that tables are opened in: paths, and the files, directories and devices that they
lead to.
-/

namespace PagePool

/-- The number of a volume; it never changes. -/
abbrev VolumeRef := Nat

inductive Node where
  | directory
  | file (volume : VolumeRef)
  /-- A device that is always full. -/
  | fullDevice
  deriving DecidableEq, Repr

/-- Nodes by their places. A place is given by the names that lead to it from the directory that the
tables are opened in, or from the root; no file has the empty name, so the root has it. -/
structure Directory where
  nodes : List (List String × Node)
  deriving DecidableEq, Repr

/-- An opened file: its volume, and that volume's contents if it is a new one. -/
structure Opened where
  volume : VolumeRef
  created : Option Volume
  directory : Directory

namespace Directory

def root : List String := [""]

/-- No tables yet, and the device outside. -/
def empty : Directory where
  nodes := [
    (root, .directory),
    (root ++ ["dev"], .directory),
    (root ++ ["dev", "full"], .fullDevice)]

/-- The place without a name is the directory itself. -/
def node? (directory : Directory) (place : List String) : Option Node :=
  if place = [] then some .directory
  else (directory.nodes.find? fun entry => entry.1 = place).map Prod.snd

def insert (directory : Directory) (place : List String) (node : Node) : Directory :=
  { nodes := (place, node) :: directory.nodes.filter fun entry => entry.1 ≠ place }

/-- Nothing lies above the root. -/
def parent (place : List String) : List String :=
  if place = root then root else place.dropLast

/-- The names on a path; any number of slashes stands between two of them. -/
def names (path : String) : List String :=
  (path.splitOn "/").filter (· ≠ "")

/-- Where a path starts. -/
def origin (path : String) : List String :=
  if path.startsWith "/" then root else []

/-- The bytes that a name may have. -/
def nameLimit : Nat := 255

/-- The bytes that a whole path may have. -/
def pathLimit : Nat := 4095

/-- What is wrong with the text of a path, wherever it might lead. -/
def refused? (path : String) : Option IoCause :=
  if path.contains '\x00' then some .zeroInName
  else if pathLimit < path.utf8ByteSize then some .nameTooLong
  else if path = "" then some .noSuchFile
  else none

/-- These names lead to directories that exist already. -/
def isRelative (name : String) : Bool :=
  name = "." || name = ".."

/-- What a name stands for in a directory. -/
def lookup (directory : Directory) (place : List String) (name : String) :
    Except Error (Option Node) :=
  if nameLimit < name.utf8ByteSize then .error (.io .nameTooLong)
  else .ok (directory.node? (place ++ [name]))

/-- Goes from a directory to the one that a name stands for. -/
def enter (directory : Directory) (place : List String) (name : String) :
    Except Error (List String) := do
  if name = "." then return place
  if name = ".." then return parent place
  match ← directory.lookup place name with
  | some .directory => return place ++ [name]
  | some _ => throw (.io .notADirectory)
  | none => throw (.io .noSuchFile)

/-- Opens the file at a path, and creates it under the given volume number if there is none. -/
def openFile (directory : Directory) (path : String) (fresh : VolumeRef) :
    Except Error Opened := do
  if let some cause := refused? path then
    throw (.io cause)
  let names := names path
  let place ← names.dropLast.foldlM directory.enter (origin path)
  let name := names.getLastD "."
  if isRelative name || path.endsWith "/" then
    throw (.io .isADirectory)
  match ← directory.lookup place name with
  | some .directory => throw (.io .isADirectory)
  | some .fullDevice => return { volume := fresh, created := some .full, directory }
  | some (.file volume) => return { volume, created := none, directory }
  | none =>
      return {
        volume := fresh
        created := some (.ofMedium (.file .empty))
        directory := directory.insert (place ++ [name]) (.file fresh) }

/-- Goes on to the place that a name stands for, which becomes a directory. -/
def makeNext (state : Directory × List String) (name : String) : Directory × List String :=
  let (directory, place) := state
  if name = "." then state
  else if name = ".." then (directory, parent place)
  else (directory.insert (place ++ [name]) .directory, place ++ [name])

/-- Makes the directory at a path and those that lead to it. -/
def makeDirectory (directory : Directory) (path : String) : Directory :=
  ((names path).foldl makeNext (directory, origin path)).1

end Directory

end PagePool
