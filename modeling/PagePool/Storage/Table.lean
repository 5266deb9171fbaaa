import PagePool.Layout
import PagePool.Storage.Directory

/-!
Tables: a number, the volume that stores the pages, and what tuples mean on those pages.
-/

namespace PagePool

inductive TableKind where
  /-- Heap pages, each with slots for tuples. -/
  | heap (layout : Layout)
  /-- Pages that each carry one stamp, the low byte of one cell; page after page takes the cells of
  a tuple, under the given lock. -/
  | stamps (mode : LockMode)
  deriving DecidableEq, Repr

structure Table where
  id : UInt32
  volume : VolumeRef
  kind : TableKind
  deriving DecidableEq, Repr

namespace Table

def page (table : Table) (index : Nat) : PageId :=
  .ofIndex table.id index

end Table

end PagePool
