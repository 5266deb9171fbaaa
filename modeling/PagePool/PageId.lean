/-!
Names of pages: the table a page belongs to and its position in that table.
-/

namespace PagePool

structure PageId where
  table : UInt32
  index : UInt32
  deriving DecidableEq, Repr, Inhabited

namespace PageId

/-- Pages are ordered by table, then by position. -/
def key (page : PageId) : Nat :=
  (page.table.toNat <<< 32) + page.index.toNat

def le (left right : PageId) : Bool :=
  decide (left.key ≤ right.key)

/-- The position of a page is its index cut to 32 bits. -/
def ofIndex (table : UInt32) (index : Nat) : PageId :=
  { table, index := UInt32.ofNat index }

def short (page : PageId) : String :=
  s!"{page.table}_{page.index}"

def label (page : PageId) : String :=
  s!"page_{page.short}"

def sort (pages : List PageId) : List PageId :=
  pages.mergeSort le

end PageId

end PagePool
