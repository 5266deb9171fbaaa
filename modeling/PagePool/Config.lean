import PagePool.Text.Unsigned

/-!
Settings of a pool, their defaults, and how settings given as text override them.
-/

namespace PagePool

/-- How long a blocked lock request waits, and into how many shards the lock table falls. -/
structure LockPolicy where
  maxRetries : Nat
  /-- The length of a single wait in nanoseconds. -/
  wait : Nat
  shards : Nat
  deriving DecidableEq, Repr

structure Config where
  poolCapacity : Nat
  lock : LockPolicy
  deriving DecidableEq, Repr

def nanosPerMilli : Nat := 1000000

def LockPolicy.ofMillis (maxRetries waitMillis shards : Nat) : LockPolicy :=
  { maxRetries, wait := waitMillis * nanosPerMilli, shards }

def LockPolicy.waitMillis (policy : LockPolicy) : Nat :=
  policy.wait / nanosPerMilli

def LockPolicy.default : LockPolicy :=
  .ofMillis 300 10 64

def Config.default : Config :=
  { poolCapacity := 50, lock := .default }

def Config.withCapacity (capacity : Nat) : Config :=
  { Config.default with poolCapacity := capacity }

/-- Settings as they are written in the environment of a process; an absent one is `none`. -/
structure Settings where
  poolCapacity : Option String
  lockRetries : Option String
  lockWaitMillis : Option String
  pageSize : Option String
  deriving DecidableEq, Repr

/-- A setting that is absent or no number leaves the default in force. -/
def Settings.number (setting : Option String) (default : Nat) : Nat :=
  (setting.bind Text.unsigned?).getD default

def Settings.config (settings : Settings) : Config where
  poolCapacity := Settings.number settings.poolCapacity Config.default.poolCapacity
  lock := .ofMillis
    (Settings.number settings.lockRetries LockPolicy.default.maxRetries)
    (Settings.number settings.lockWaitMillis LockPolicy.default.waitMillis)
    LockPolicy.default.shards

def defaultPageSize : Nat := 4096

def Settings.bytesPerPage (settings : Settings) : Nat :=
  Settings.number settings.pageSize defaultPageSize

end PagePool
