import Mathlib.Logic.Function.Basic
import PagePool.Proofs.Session.Step

/-!
# What transactions ask and what they are shown

The queries that transactions put to pages through their handles, what the reads among them show,
and a store of pages that serves one transaction after the other. The history of a run keeps the
queries of each transaction and the order of the commits.
-/

namespace PagePool

/-- What a transaction does through a handle of a page. -/
inductive Query where
  | read (page : PageId)
  | write (page : PageId) (offset : Nat) (chunk : Bytes)
  deriving DecidableEq

def Query.writes (page : PageId) : Query → Bool
  | .read _ => false
  | .write other _ _ => other = page

abbrev Store := PageId → Bytes

namespace Store

def write (store : Store) (page : PageId) (offset : Nat) (chunk : Bytes) : Store :=
  Function.update store page ((store page).overwrite offset chunk)

/-- What the reads of one transaction show, and the store after it. -/
def serve (store : Store) : List Query → List Bytes × Store
  | [] => ([], store)
  | .read page :: rest =>
      let (shown, last) := store.serve rest
      (store page :: shown, last)
  | .write page offset chunk :: rest => (store.write page offset chunk).serve rest

/-- Serves transactions one after the other. -/
def serial (store : Store) : List (List Query) → List (List Bytes) × Store
  | [] => ([], store)
  | queries :: rest =>
      let (shown, middle) := store.serve queries
      let (others, last) := middle.serial rest
      (shown :: others, last)

variable (store : Store)

theorem serve_append (queries rest : List Query) :
    store.serve (queries ++ rest) =
      ((store.serve queries).1 ++ ((store.serve queries).2.serve rest).1,
        ((store.serve queries).2.serve rest).2) := by
  induction queries generalizing store with
  | nil => rfl
  | cons query queries ih =>
      cases query with
      | read page => simp only [List.cons_append, serve, ih]
      | write page offset chunk => simp only [List.cons_append, serve, ih]

theorem serial_append (transactions rest : List (List Query)) :
    store.serial (transactions ++ rest) =
      ((store.serial transactions).1 ++ ((store.serial transactions).2.serial rest).1,
        ((store.serial transactions).2.serial rest).2) := by
  induction transactions generalizing store with
  | nil => rfl
  | cons queries transactions ih => simp only [List.cons_append, serial, ih]

end Store

/-- The queries of a transaction, and what it was shown. -/
structure Journal where
  queries : List Query
  shown : List Bytes
  deriving DecidableEq

namespace Journal

def empty : Journal :=
  { queries := [], shown := [] }

def writes (journal : Journal) (page : PageId) : Bool :=
  journal.queries.any (·.writes page)

def read (journal : Journal) (page : PageId) (bytes : Bytes) : Journal :=
  { queries := journal.queries ++ [.read page], shown := journal.shown ++ [bytes] }

def write (journal : Journal) (page : PageId) (offset : Nat) (chunk : Bytes) : Journal :=
  { journal with queries := journal.queries ++ [.write page offset chunk] }

end Journal

/-- The queries of the transactions of a run. -/
structure History where
  running : TxId → Journal
  /-- The transactions that have begun and not ended. -/
  active : TxId → Bool
  /-- The transactions that have committed, the first to do so in front. -/
  committed : List Journal

namespace Session

/-- The loan that a handle stands for, as long as its transaction goes on. -/
def reader? (session : Session) (handle : Nat) : Option Loan :=
  (session.handle? handle).bind fun entry =>
    session.loans.find? fun loan => loan.tx = entry.tx ∧ loan.ref = entry.ref

/-- The loan under which a transaction may write through a handle. -/
def writer? (session : Session) (handle : Nat) (tx : TxId) : Option Loan :=
  (session.handle? handle).bind fun entry =>
    session.loans.find? fun loan =>
      loan.tx = tx ∧ loan.mode = .exclusive ∧ loan.ref = entry.ref

/-- What a read through a handle shows. -/
def shown? (session : Session) (handle : Nat) : Option Bytes :=
  match (session.step (.command (.read handle))).log with
  | .command _ (.ok (.bytes bytes)) :: _ => some bytes
  | _ => none

end Session

namespace History

def start : History where
  running _ := .empty
  active _ := false
  committed := []

/-- The page of the loan has left the cache and come back for its borrower, who has written it
since. The loan shows what the page was before. -/
def Outdated (history : History) (session : Session) (loan : Loan) : Prop :=
  session.pool.cache.peek? loan.page ≠ some loan.ref ∧
    (history.running loan.tx).writes loan.page = true

instance (history : History) (session : Session) (loan : Loan) :
    Decidable (history.Outdated session loan) :=
  inferInstanceAs (Decidable (_ ∧ _))

def note (history : History) (tx : TxId) (journal : Journal) : History :=
  { history with running := Function.update history.running tx journal }

def finish (history : History) (ending : Ending) (tx : TxId) : History where
  running := Function.update history.running tx .empty
  active := Function.update history.active tx false
  committed :=
    match ending with
    | .commit => history.committed ++ [history.running tx]
    | .abort => history.committed

def record (history : History) (session : Session) : Event → History
  | .start _ call => { history with active := Function.update history.active call.tx true }
  | .command (.read handle) =>
      match session.reader? handle, session.shown? handle with
      | some loan, some bytes =>
          if history.Outdated session loan then history
          else history.note loan.tx ((history.running loan.tx).read loan.page bytes)
      | _, _ => history
  | .command (.write handle tx offset chunk) =>
      match session.writer? handle tx with
      | some loan => history.note tx ((history.running tx).write loan.page offset chunk)
      | none => history
  | .command (.finish ending tx) => history.finish ending tx
  | _ => history

end History

/-- The history after a list of events. -/
def Session.recount (session : Session) (history : History) : List Event → History
  | [] => history
  | event :: rest => (session.step event).recount (history.record session event) rest

/-- The transaction that an event begins, or goes on with. -/
def Event.begins? : Event → Option TxId
  | .start _ call => some call.tx
  | _ => none

/-- The transactions under way after an event. -/
def Event.activate (event : Event) (active : TxId → Bool) : TxId → Bool :=
  match event with
  | .start _ call => Function.update active call.tx true
  | .command (.finish _ tx) => Function.update active tx false
  | _ => active

/-- The transactions under way after a list of events. -/
def Event.activateAll (events : List Event) (active : TxId → Bool) : TxId → Bool :=
  events.foldl (fun active event => event.activate active) active

theorem Event.active_of_activate {event : Event} {active : TxId → Bool} {tx : TxId}
    (hactive : event.activate active tx = true) : event.begins? = some tx ∨ active tx = true := by
  unfold activate at hactive
  split at hactive
  · next id call =>
    by_cases htx : tx = call.tx
    · exact .inl (congrArg some htx.symm)
    · rw [Function.update_of_ne htx] at hactive
      exact .inr hactive
  · next ending other =>
    by_cases htx : tx = other
    · rw [htx, Function.update_self] at hactive
      cases hactive
    · rw [Function.update_of_ne htx] at hactive
      exact .inr hactive
  · exact .inr hactive

theorem Event.active_of_activateAll {events : List Event} {active : TxId → Bool} {tx : TxId}
    (hactive : activateAll events active tx = true) :
    (∃ event ∈ events, event.begins? = some tx) ∨ active tx = true := by
  induction events generalizing active with
  | nil => exact .inr hactive
  | cons event rest ih =>
      rcases ih hactive with ⟨later, hmem, hlater⟩ | hrest
      · exact .inl ⟨later, List.mem_cons_of_mem event hmem, hlater⟩
      · exact (active_of_activate hrest).imp_left fun hevent => ⟨event, List.mem_cons_self, hevent⟩

/-- Only those that have begun need to end. -/
theorem Event.activateAll_eq_false {events : List Event}
    (hended : ∀ event ∈ events, ∀ tx ∈ event.begins?,
      activateAll events (fun _ => false) tx = false) (tx : TxId) :
    activateAll events (fun _ => false) tx = false := by
  cases hactive : activateAll events (fun _ => false) tx with
  | false => rfl
  | true =>
      rcases active_of_activateAll hactive with ⟨event, hmem, hbegins⟩ | hstart
      · exact hactive.symm.trans (hended event hmem tx hbegins)
      · cases hstart

theorem History.active_record (history : History) (session : Session) (event : Event) :
    (history.record session event).active = event.activate history.active := by
  cases event with
  | command command =>
      cases command with
      | read handle =>
          simp only [record]
          split
          · split <;> rfl
          · rfl
      | write handle tx offset chunk =>
          simp only [record]
          split <;> rfl
      | _ => rfl
  | _ => rfl

/-- Who is under way is told from the events alone. -/
theorem Session.active_recount (session : Session) (history : History) (events : List Event) :
    (session.recount history events).active = Event.activateAll events history.active := by
  induction events generalizing session history with
  | nil => rfl
  | cons event rest ih =>
      rw [recount, ih, History.active_record]
      rfl

/-- An event of transactions that only get pages, read and write them, and end. -/
def Event.Plain : Event → Prop
  | .start _ (.get ..) | .evaluate _ | .wake .. | .load _ => True
  | .command (.read _) | .command (.write ..) | .command (.finish ..) => True
  | .command (.flushPage _) | .command (.flushTransaction _) | .command .flushAll => True
  | _ => False

instance : (event : Event) → Decidable event.Plain
  | .start _ (.get ..) | .evaluate _ | .wake .. | .load _ => inferInstanceAs (Decidable True)
  | .command (.read _) | .command (.write ..) | .command (.finish ..) =>
      inferInstanceAs (Decidable True)
  | .command (.flushPage _) | .command (.flushTransaction _) | .command .flushAll =>
      inferInstanceAs (Decidable True)
  | .start _ (.acquire ..) | .start _ (.insert ..) | .start _ (.delete ..)
  | .start _ (.insertInto ..) | .start _ (.deleteFrom ..) | .start _ (.scan ..) =>
      inferInstanceAs (Decidable False)
  | .command (.mark ..) | .command (.discardPage _) | .command (.release ..)
  | .command (.completeLocks _) => inferInstanceAs (Decidable False)

end PagePool
