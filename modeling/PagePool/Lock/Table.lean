import PagePool.Lock.Mode
import PagePool.Multimap

/-!
The lock table: which transaction holds which lock on which page, in the order of the grants.
-/

namespace PagePool

structure LockRecord where
  tx : TxId
  mode : LockMode
  page : PageId
  deriving DecidableEq, Repr

structure LockTable where
  pages : Multimap PageId LockRecord

namespace LockTable

def empty : LockTable :=
  { pages := .empty }

def records (table : LockTable) (page : PageId) : List LockRecord :=
  table.pages.values page

/-- A reader is blocked by the writers among the others, a writer by all others. -/
def conflicts (request : Request) (record : LockRecord) : Bool :=
  record.tx ≠ request.tx && (request.mode = .exclusive || record.mode = .exclusive)

/-- The transactions that stand in the way of a request, each once. -/
def blockers (table : LockTable) (request : Request) : List TxId :=
  (((table.records request.page).filter (conflicts request)).map LockRecord.tx).eraseDups

def withRecord (table : LockTable) (request : Request) : LockTable :=
  let record := { tx := request.tx, mode := request.mode, page := request.page }
  { pages := table.pages.put request.page (table.records request.page ++ [record]) }

/-- Turns every record of a page into an exclusive one. -/
def withExclusive (table : LockTable) (page : PageId) : LockTable :=
  { pages := table.pages.put page
      ((table.records page).map fun record => { record with mode := .exclusive }) }

/-- Records a request that nothing blocks. A reader that holds a lock already keeps it as it is; a
writer is alone on the page, and what it holds becomes exclusive. -/
def grant (table : LockTable) (request : Request) : LockTable :=
  if table.records request.page = [] then table.withRecord request
  else
    match request.mode with
    | .shared =>
        if (table.records request.page).any (·.tx = request.tx) then table
        else table.withRecord request
    | .exclusive => table.withExclusive request.page

/-- The strongest lock of a transaction on a page. -/
def mode? (table : LockTable) (tx : TxId) (page : PageId) : Option LockMode :=
  let own := (table.records page).filter (·.tx = tx)
  if own.any (·.mode = .exclusive) then some .exclusive
  else if own = [] then none
  else some .shared

def holds (table : LockTable) (tx : TxId) (page : PageId) : Bool :=
  (table.mode? tx page).isSome

def isExclusive (table : LockTable) (page : PageId) : Bool :=
  (table.records page).any (·.mode = .exclusive)

def release (table : LockTable) (tx : TxId) (page : PageId) : LockTable :=
  { pages := table.pages.put page ((table.records page).filter (·.tx ≠ tx)) }

/-- Without all records of a transaction. -/
def complete (table : LockTable) (tx : TxId) : LockTable :=
  { pages := table.pages.filter fun _ record => record.tx ≠ tx }

/-- The pages on which a transaction holds a lock, in order. -/
def related (table : LockTable) (tx : TxId) : List PageId :=
  PageId.sort (table.pages.keys.filter fun page => (table.records page).any (·.tx = tx))

@[simp]
theorem records_empty (page : PageId) : empty.records page = [] := rfl

theorem records_withRecord (table : LockTable) (request : Request) (page : PageId) :
    (table.withRecord request).records page =
      if page = request.page then
        table.records page ++ [{ tx := request.tx, mode := request.mode, page }]
      else table.records page := by
  unfold withRecord records
  rw [Multimap.values_put]
  split
  · next h => rw [h]
  · rfl

theorem records_withExclusive (table : LockTable) (changed page : PageId) :
    (table.withExclusive changed).records page =
      if page = changed then
        (table.records page).map fun record => { record with mode := .exclusive }
      else table.records page := by
  unfold withExclusive records
  rw [Multimap.values_put]
  split
  · next h => rw [h]
  · rfl

theorem records_release (table : LockTable) (tx : TxId) (released page : PageId) :
    (table.release tx released).records page =
      if page = released then (table.records page).filter (·.tx ≠ tx)
      else table.records page := by
  unfold release records
  rw [Multimap.values_put]
  split
  · next h => rw [h]
  · rfl

theorem records_complete (table : LockTable) (tx : TxId) (page : PageId) :
    (table.complete tx).records page = (table.records page).filter (·.tx ≠ tx) :=
  Multimap.values_filter table.pages _ page

def describeEntry (entry : PageId × List LockRecord) : String :=
  let records := entry.2.map fun record => s!"{txLabel record.tx}: {record.mode.name}"
  "\n\t" ++ entry.1.short ++ " -> [" ++ ", ".intercalate records ++ "]"

/-- One line for every page, the lines in the order of their texts. -/
def describe (table : LockTable) : String :=
  let lines := (table.pages.entries.map describeEntry).mergeSort fun left right =>
    !decide (right < left)
  "\nlock_table: \x7b" ++ String.join lines ++ "\n\x7d\n"

end LockTable

end PagePool
