import PagePool.Config
import PagePool.Error

/-!
The patience of a blocked lock request: how often it may wait in vain, and until when. Points in
time are nanoseconds since some start.
-/

namespace PagePool

structure Budget where
  /-- The waits that have ended without a wake-up. -/
  retries : Nat
  deadline : Nat
  deriving DecidableEq, Repr

namespace Budget

/-- Points in time beyond 2 ^ 63 seconds cannot be told. -/
def timeLimit : Nat := (1 <<< 63) * 1000000000

/-- The time allowed for all waits together; the retry count enters it with its low 32 bits. -/
def patience (policy : LockPolicy) : Nat :=
  policy.wait * (policy.maxRetries % (1 <<< 32))

def start (policy : LockPolicy) (now : Nat) : Except Failure Budget :=
  let deadline := now + patience policy
  if deadline < timeLimit then .ok { retries := 0, deadline } else .error (.fault .overflow)

def isExhausted (budget : Budget) (policy : LockPolicy) (now : Nat) : Bool :=
  policy.maxRetries ≤ budget.retries || budget.deadline ≤ now

/-- Only a wait that lasted its full time counts as a retry. -/
def afterWait (budget : Budget) (timedOut : Bool) : Budget :=
  if timedOut then { budget with retries := budget.retries + 1 } else budget

end Budget

end PagePool
