/-!
The latch of a page in memory: who is using it right now, and whether a writer broke down on it.
-/

namespace PagePool

inductive Holder where
  | nobody
  | readers
  | writer
  deriving DecidableEq, Repr

structure Latch where
  holder : Holder
  poisoned : Bool
  deriving DecidableEq, Repr

namespace Latch

def free : Latch :=
  { holder := .nobody, poisoned := false }

def held (holder : Holder) : Latch :=
  { free with holder }

/-- A writer keeps everybody out, and so does a latch that a writer broke. -/
def refusesRead (latch : Latch) : Bool :=
  latch.poisoned || latch.holder = .writer

/-- Readers keep writers out as well. -/
def refusesWrite (latch : Latch) : Bool :=
  latch.poisoned || latch.holder ≠ .nobody

def describe (latch : Latch) : String :=
  s!"[r: {latch.refusesRead}, w: {latch.refusesWrite}, p: {latch.poisoned}]"

end Latch

end PagePool
