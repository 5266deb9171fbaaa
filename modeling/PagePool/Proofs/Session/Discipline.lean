import PagePool.Session
import PagePool.Proofs.Pool.Operation

/-!
# What transactions keep to

A transaction is one thread of control: it makes one call after the other, and ends when it is at
rest. It changes bytes through handles that it got for writing and by insertions and deletions, and
it gives back no page that it has changed. Everybody may flush at any time. Runs that follow this
discipline start from a pool at rest, over tables with volumes of their own whose calls do not fail.
-/

namespace PagePool

/-- A page that a transaction has got and that is still its own to use. -/
structure Loan where
  tx : TxId
  page : PageId
  mode : LockMode
  ref : PageRef
  deriving DecidableEq

/-- The loans that a log leaves behind, its latest entry first. A loan ends with its transaction, or
when the page is given back. -/
def Entry.loans : List Entry → List Loan
  | [] => []
  | .call _ (.get tx page mode) ⟨.ok (.page ref), _⟩ :: earlier =>
      { tx, page, mode, ref } :: loans earlier
  | .command (.finish _ tx) (.ok _) :: earlier => (loans earlier).filter (·.tx ≠ tx)
  | .command (.release tx page) _ :: earlier =>
      (loans earlier).filter fun loan => ¬(loan.tx = tx ∧ loan.page = page)
  | _ :: earlier => loans earlier

/-- A pool that nobody has used yet. -/
structure Pool.Ready (pool : Pool) : Prop where
  empty : pool.cache.entries = []
  unlocked : ∀ page, pool.locks.table.records page = []
  backed : ∀ table ∈ pool.tables, table.volume < pool.volumes.length
  reliable : ∀ table ∈ pool.tables, (pool.volume table.volume).Reliable pool.pageSize
  apart : (pool.tables.map Table.volume).Nodup
  strict : pool.Strict

/-- The transaction has no object of the page that an abort would have to take back. -/
def Pool.Unmodified (pool : Pool) (tx : TxId) (page : PageId) : Prop :=
  pool.locks.table.mode? tx page = some .exclusive →
    ∀ ref ∈ pool.cache.peek? page, (pool.page ref).beforeImage = none

namespace Session

def loans (session : Session) : List Loan :=
  Entry.loans session.log

/-- The transaction has no call under way. -/
def Idle (session : Session) (tx : TxId) : Prop :=
  ∀ task ∈ session.tasks, task.call.tx ≠ tx

/-- The handle was got for writing by the transaction, which has not ended since. -/
def Writable (session : Session) (handle : Nat) (tx : TxId) : Prop :=
  ∃ entry ∈ session.handle? handle, ∃ loan ∈ session.loans,
    loan.tx = tx ∧ loan.mode = .exclusive ∧ loan.ref = entry.ref

def Allows (session : Session) : Command → Prop
  | .read _ | .flushPage _ | .flushTransaction _ | .flushAll => True
  | .write handle tx _ _ => session.Writable handle tx
  | .release tx page => session.Idle tx ∧ session.pool.Unmodified tx page
  | .finish _ tx => session.Idle tx
  | .mark .. | .discardPage _ | .completeLocks _ => False

def Permits (session : Session) : Event → Prop
  | .start _ call => session.Idle call.tx ∧ session.pool.Admits call
  | .evaluate _ | .wake .. | .load _ => True
  | .command command => session.Allows command

/-- The call that an event moves on. -/
def call? (session : Session) : Event → Option Call
  | .start _ call => some call
  | .evaluate id | .wake id .. | .load id => (session.task? id).map Task.call
  | .command _ => none

/-- If the event moves on an insertion into a heap table, then that table has fewer than 2 ^ 32
pages. -/
def HasRoom (session : Session) (event : Event) : Prop :=
  ∀ call ∈ session.call? event, session.pool.HasRoomFor call

/-- Every event of a run is permitted when it happens, and each heap table has fewer than 2 ^ 32
pages whenever an insertion into it goes on: past that bound the number of an appended page wraps
around, and its zeros go over a page that is there. -/
def Follows (session : Session) : List Event → Prop
  | [] => True
  | event :: rest =>
      session.HasRoom event ∧ session.Permits event ∧ (session.step event).Follows rest

/-- The transaction that makes an event happen; flushes are nobody's. -/
def actor? (session : Session) : Event → Option TxId
  | .command command =>
      match command with
      | .write _ tx .. | .mark _ tx _ | .release tx _ | .completeLocks tx | .finish _ tx => some tx
      | .read _ | .flushPage _ | .flushTransaction _ | .flushAll | .discardPage _ => none
  | event => (session.call? event).map Call.tx

section Decidable

variable (pool : Pool) (session : Session)

instance (table : Table) : Decidable (pool.HasRoom table) :=
  inferInstanceAs (Decidable (_ = none))

instance (call : Call) : Decidable (pool.HasRoomFor call) :=
  inferInstanceAs (Decidable (∀ table ∈ pool.grown? call, pool.HasRoom table))

instance (event : Event) : Decidable (session.HasRoom event) :=
  inferInstanceAs (Decidable (∀ call ∈ session.call? event, session.pool.HasRoomFor call))

instance (table : Table) : Decidable (pool.Registered table) :=
  inferInstanceAs (Decidable (_ = _))

instance : (call : Call) → Decidable (pool.Admits call)
  | .insertInto _ table _ | .deleteFrom _ table _ | .scan _ table =>
      inferInstanceAs (Decidable (pool.Registered table))
  | .acquire .. | .get .. | .insert .. | .delete .. => inferInstanceAs (Decidable True)

instance (tx : TxId) (page : PageId) : Decidable (pool.Unmodified tx page) :=
  inferInstanceAs (Decidable (_ → ∀ ref ∈ pool.cache.peek? page, _))

instance (tx : TxId) : Decidable (session.Idle tx) :=
  inferInstanceAs (Decidable (∀ task ∈ session.tasks, _))

instance (handle : Nat) (tx : TxId) : Decidable (session.Writable handle tx) :=
  inferInstanceAs (Decidable (∃ entry ∈ session.handle? handle, ∃ loan ∈ session.loans, _))

instance : (command : Command) → Decidable (session.Allows command)
  | .read _ | .flushPage _ | .flushTransaction _ | .flushAll => inferInstanceAs (Decidable True)
  | .write handle tx _ _ => inferInstanceAs (Decidable (session.Writable handle tx))
  | .release tx page =>
      inferInstanceAs (Decidable (session.Idle tx ∧ session.pool.Unmodified tx page))
  | .finish _ tx => inferInstanceAs (Decidable (session.Idle tx))
  | .mark .. | .discardPage _ | .completeLocks _ => inferInstanceAs (Decidable False)

instance : (event : Event) → Decidable (session.Permits event)
  | .start _ call => inferInstanceAs (Decidable (session.Idle call.tx ∧ session.pool.Admits call))
  | .evaluate _ | .wake .. | .load _ => inferInstanceAs (Decidable True)
  | .command command => inferInstanceAs (Decidable (session.Allows command))

instance decidableFollows : (session : Session) → (events : List Event) →
    Decidable (session.Follows events)
  | _, [] => inferInstanceAs (Decidable True)
  | session, event :: rest =>
      have := decidableFollows (session.step event) rest
      inferInstanceAs (Decidable (session.HasRoom event ∧ session.Permits event ∧
        (session.step event).Follows rest))

end Decidable

theorem run_cons (session : Session) (event : Event) (rest : List Event) :
    session.run (event :: rest) = (session.step event).run rest := rfl

theorem run_append (session : Session) (events rest : List Event) :
    session.run (events ++ rest) = (session.run events).run rest :=
  List.foldl_append

theorem follows_append {session : Session} {events rest : List Event} :
    session.Follows (events ++ rest) ↔
      session.Follows events ∧ (session.run events).Follows rest := by
  induction events generalizing session with
  | nil => exact (iff_of_eq (true_and _)).symm
  | cons event events ih =>
      rw [List.cons_append, run_cons, Follows, Follows, ih, and_assoc, and_assoc]

/-- What holds at the start of a run and is kept by permitted events holds at its end. -/
theorem Follows.induction {motive : Session → Prop} {session : Session} {events : List Event}
    (h : session.Follows events) (hstart : motive session)
    (hstep : ∀ {session event}, motive session → session.HasRoom event → session.Permits event →
      motive (session.step event)) : motive (session.run events) := by
  induction events generalizing session with
  | nil => exact hstart
  | cons event rest ih => exact ih h.2.2 (hstep hstart h.1 h.2.1)

end Session

end PagePool
