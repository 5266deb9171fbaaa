import PagePool.Proofs.Session.Replay

/-!
# The history keeps up

Every event of transactions that only get, read and write pages does to the pool what the history
takes down: a read shows what its transaction finds on the page, a write changes one page, and an
end adds the journal of its transaction to the committed ones, or drops it.
-/

namespace PagePool

open LockRecord Standing Pool

namespace Session

variable {session : Session} {history : History} {first : Pool} {event : Event} {handle : Nat}
  {tx : TxId} {loan : Loan}

theorem reader?_spec (h : session.reader? handle = some loan) :
    ∃ entry, session.handle? handle = some entry ∧ loan ∈ session.loans ∧ loan.ref = entry.ref := by
  obtain ⟨entry, hentry, hfound⟩ := Option.bind_eq_some_iff.1 h
  refine ⟨entry, hentry, List.mem_of_find?_eq_some hfound, ?_⟩
  have htest := List.find?_some hfound
  simp only [decide_eq_true_eq] at htest
  exact htest.2

theorem writer?_spec (h : session.Writable handle tx) :
    ∃ loan entry, session.writer? handle tx = some loan ∧ session.handle? handle = some entry ∧
      loan ∈ session.loans ∧ loan.tx = tx ∧ loan.mode = .exclusive ∧ loan.ref = entry.ref := by
  obtain ⟨entry, hentry, loan, hmem, htx, hmode, href⟩ := h
  have hhandle : session.handle? handle = some entry := hentry
  have hfound : (session.loans.find? fun loan =>
      loan.tx = tx ∧ loan.mode = .exclusive ∧ loan.ref = entry.ref).isSome := by
    refine List.find?_isSome.2 ⟨loan, hmem, ?_⟩
    exact decide_eq_true ⟨htx, hmode, href⟩
  obtain ⟨found, hfound⟩ := Option.isSome_iff_exists.1 hfound
  have htest := List.find?_some hfound
  simp only [decide_eq_true_eq] at htest
  refine ⟨found, entry, ?_, hhandle, List.mem_of_find?_eq_some hfound, htest⟩
  simp only [writer?, hhandle, Option.bind_some, hfound]

theorem shown?_eq {entry : Handle} (h : session.handle? handle = some entry) :
    session.shown? handle = some (session.pool.page entry.ref).data := by
  have hread := execute_ok (session.action_read handle)
  have hlog : (session.step (.command (.read handle))).log =
      .command (.read handle) (.ok (.bytes (session.pool.page entry.ref).data)) :: session.log := by
    change (session.execute (.read handle)).log = _
    rw [hread, h]
  simp only [shown?, hlog]

end Session

namespace History

open Session

variable {session after : Session} {history : History} {first : Pool} {event : Event}

theorem Sound.deliver (h : history.Sound first session) : history.Sound first session.deliver where
  stored := h.stored
  serial := h.serial
  running := h.running
  loans loan hmem :=
    have hloan := h.loans loan hmem
    ⟨hloan.heldBy, hloan.inside, hloan.id_eq, hloan.data_eq⟩
  calls task hmem := by
    obtain ⟨old, hold, rfl⟩ := List.mem_map.1 hmem
    have hsame : (notifyTask session.pool.locks old).call = old.call := by
      unfold notifyTask
      split <;> rfl
    rw [hsame]
    exact h.calls old hold
  active := h.active

theorem Sound.begin (h : history.Sound first session) (tx : TxId) :
    Sound { history with active := Function.update history.active tx true } first session := by
  have hactive : ∀ other, history.active other = true →
      Function.update history.active tx true other = true := by
    intro other hother
    by_cases hsame : other = tx
    · rw [hsame, Function.update_self]
    · rwa [Function.update_of_ne hsame]
  refine ⟨⟨h.stored, h.serial, h.running, fun loan hmem => ?_⟩, fun task hmem => ?_,
    fun hheld => hactive _ (h.active hheld)⟩
  · have hloan := h.loans loan hmem
    exact ⟨hloan.heldBy, hloan.inside, hloan.id_eq, hloan.data_eq⟩
  · exact (h.calls task hmem).imp_right (hactive _)

/-- Calls that only look at pages change nothing. -/
theorem Sound.advances (h : history.Sound first session) (hsession : session.Sound) {call : Call}
    (hadvances : session.Advances call after) (hdeed : call.deed = .access)
    (hactive : history.active call.tx = true) : history.Sound first after := by
  have hquiet : call.deed ≠ .change := by simp [hdeed]
  have htells := h.toTells.evolves hadvances.evolves hsession.coherent hquiet
  have hloans : ∀ loan ∈ after.loans, loan.Shows history after.pool := by
    intro loan hmem
    rcases hadvances.log with hlog | ⟨id, outcome, hlog, hlends⟩
    · rw [Session.loans, hlog] at hmem
      exact htells.loans loan hmem
    · have hmem' : loan ∈ (session.close id call outcome).loans := by
        rw [Session.loans, hlog] at hmem
        exact hmem
      rcases loans_close hmem' with hold | ⟨page, mode, ref, hget, hresult, rfl⟩
      · exact htells.loans loan hold
      · obtain ⟨page', mode', hget', hpeek, hheld, _⟩ := hlends ref hresult
        cases hget.symm.trans hget'
        exact Tells.lend hadvances.sound.coherent hpeek hheld
  refine ⟨⟨htells.stored, htells.serial, htells.running, hloans⟩, fun task hmem => ?_,
    fun {id tx} hheld => ?_⟩
  · rcases hadvances.calls task hmem with rfl | ⟨old, hold, _, hsame⟩
    · exact ⟨hdeed, hactive⟩
    · rw [← hsame]
      exact h.calls old hold
  · by_cases hactor : tx = call.tx
    · rwa [hactor]
    · exact h.active (((hadvances.evolves.moves id).heldBy_iff hactor).1 hheld)

theorem Sound.serve (h : history.Sound first session) (hsession : session.Sound)
    {command : Command} (hallows : session.Allows command)
    (hactor : session.actor? (.command command) = none)
    (hloans : (session.execute command).loans = session.loans) :
    history.Sound first (session.execute command) := by
  have hserves : ∀ tx, Evolves .flush tx session.pool (session.execute command).pool := by
    obtain ⟨_, heffect⟩ := hsession.execute hallows
    cases heffect with
    | finish hevent =>
        cases hevent
        cases hactor
    | release hevent =>
        cases hevent
        cases hactor
    | act _ hactor' =>
        rw [hactor] at hactor'
        cases hactor'
    | serve _ hserves => exact hserves
  refine ⟨?_, ?_, fun {id tx} hheld => ?_⟩
  · rw [hloans]
    exact h.toTells.evolves (hserves 0) hsession.coherent (by simp)
  · rw [tasks_execute]
    exact h.calls
  · have hne : tx ≠ tx + 1 := (Nat.succ_ne_self _).symm
    exact h.active ((((hserves (tx + 1)).moves id).heldBy_iff hne).1 hheld)

/-- A read shows what its page has, unless the loan is outdated. -/
theorem Sound.read (h : history.Sound first session) (handle : Nat) :
    (history.record session (.command (.read handle))).Sound first
      (session.execute (.read handle)) := by
  rw [execute_ok (session.action_read handle)]
  unfold History.record
  dsimp only
  split
  · next loan bytes hreader hshown =>
    obtain ⟨entry, hentry, hmem, href⟩ := reader?_spec hreader
    rw [shown?_eq hentry, ← href] at hshown
    obtain rfl := Option.some.inj hshown
    split
    · exact ⟨h.toTells, h.calls, h.active⟩
    · next hcurrent =>
      have hcurrent' : session.pool.cache.peek? loan.page = some loan.ref ∨
          (history.running loan.tx).writes loan.page = false := by
        by_contra hneither
        obtain ⟨hgone, hwritten⟩ := not_or.1 hneither
        exact hcurrent ⟨hgone, by simpa using hwritten⟩
      exact ⟨h.toTells.read hmem hcurrent', h.calls, h.active⟩
  · exact ⟨h.toTells, h.calls, h.active⟩

theorem Sound.write (h : history.Sound first session) (hsession : session.Sound) {handle : Nat}
    {tx : TxId} (hwritable : session.Writable handle tx) (offset : Nat) (chunk : Bytes) :
    (history.record session (.command (.write handle tx offset chunk))).Sound first
      (session.execute (.write handle tx offset chunk)) := by
  obtain ⟨loan, entry, hwriter, hhandle, hmem, rfl, hmode, href⟩ := writer?_spec hwritable
  obtain ⟨result, hresult⟩ := session.execute_write hhandle loan.tx offset chunk
  obtain ⟨howner, hpeek⟩ := hsession.loans_sound loan hmem hmode
  rw [hresult, ← href]
  simp only [History.record, hwriter]
  exact ⟨h.toTells.write hsession.coherent howner hpeek offset chunk, h.calls, h.active⟩

theorem Sound.finish (h : history.Sound first session) (hsession : session.Sound) {tx : TxId}
    (hidle : session.Idle tx) (ending : Ending) :
    (history.finish ending tx).Sound first (session.execute (.finish ending tx)) := by
  have hallows : session.Allows (.finish ending tx) := hidle
  obtain ⟨_, heffect⟩ := hsession.execute hallows
  cases heffect with
  | finish hevent hlog hfinishes =>
      cases hevent
      have hloans : (session.execute (.finish ending tx)).loans =
          session.loans.filter (·.tx ≠ tx) := by
        rw [Session.loans, hlog]
        rfl
      refine ⟨?_, fun task hmem => ?_, fun {id other} hheld => ?_⟩
      · rw [hloans]
        exact h.toTells.finish hsession.coherent hfinishes
      · rw [tasks_execute] at hmem
        obtain ⟨hdeed, hactive⟩ := h.calls task hmem
        refine ⟨hdeed, ?_⟩
        simpa only [History.finish, Function.update_of_ne (hidle task hmem)] using hactive
      · obtain ⟨hheld, hother⟩ := (hfinishes.heldBy_iff id).1 hheld
        simpa only [History.finish, Function.update_of_ne hother] using h.active hheld
  | release hevent => cases hevent
  | act hevent => exact absurd rfl (hevent ending tx)
  | serve hactor => cases hactor

theorem Sound.resume (h : history.Sound first session) (hsession : session.Sound)
    (hroom : session.HasRoom event) (hpermits : session.Permits event) {id : Nat}
    (hevent : session.call? event = (session.task? id).map Task.call)
    (hcommand : ∀ command, event ≠ .command command) :
    history.Sound first (session.react event) := by
  cases hcall : session.call? event with
  | none => rwa [react_of_call_eq_none hcall hcommand]
  | some call =>
      obtain ⟨task, htask, rfl⟩ := Option.map_eq_some_iff.1 (hevent.symm.trans hcall)
      obtain ⟨hdeed, hactive⟩ := h.calls task (task?_mem htask).1
      exact h.advances hsession (hsession.advances hroom hpermits hcall) hdeed hactive

/-- The history keeps up with every event of transactions that only get, read and write pages. -/
theorem Sound.step (h : history.Sound first session) (hsession : session.Sound)
    (hroom : session.HasRoom event) (hpermits : session.Permits event) (hplain : event.Plain) :
    (history.record session event).Sound first (session.step event) := by
  apply Sound.deliver
  cases event with
  | start id call =>
      have hdeed : call.deed = .access := by
        cases call with
        | get => rfl
        | _ => cases hplain
      apply (h.begin call.tx).advances hsession (hsession.advances hroom hpermits rfl) hdeed
      exact Function.update_self ..
  | evaluate id => exact h.resume hsession hroom hpermits rfl fun _ heq => by cases heq
  | wake id timedOut elapsed =>
      exact h.resume hsession hroom hpermits rfl fun _ heq => by cases heq
  | load id => exact h.resume hsession hroom hpermits rfl fun _ heq => by cases heq
  | command command =>
      have hflush : ∀ {command : Command}, (∀ result log,
          Entry.loans (.command command result :: log) = Entry.loans log) →
          (session.execute command).loans = session.loans := by
        intro command hloans
        obtain ⟨result, hlog⟩ := session.log_execute command
        rw [Session.loans, hlog, hloans]
        rfl
      cases command with
      | read handle => exact h.read handle
      | write handle tx offset chunk => exact h.write hsession hpermits offset chunk
      | finish ending tx => exact h.finish hsession hpermits ending
      | flushPage | flushTransaction | flushAll =>
          exact h.serve hsession hpermits rfl (hflush fun _ _ => rfl)
      | _ => cases hplain

theorem Sound.start {pool : Pool} (hready : pool.Ready) (now : Nat) :
    History.start.Sound pool (.ofPool pool now) := by
  have hfree : ∀ id tx, ¬HeldBy (pool.locks.table.records id) tx := by
    intro id tx
    rw [hready.unlocked]
    rintro ⟨_, hmem, _⟩
    cases hmem
  refine ⟨⟨fun _ => rfl, ?_, fun tx => .empty fun id => hfree id tx, ?_⟩, ?_, ?_⟩
  · have hsame : pool.content = pool.base := by
      funext id
      have hpeek : pool.cache.peek? id = none := by simp [Cache.peek?, hready.empty]
      have hcached := standing_cached_none hpeek
      rw [Pool.content, Pool.base, content_of_absent hcached, base_of_absent hcached]
    simp only [History.start, List.map_nil, Store.serial, hsame, Session.ofPool]
  · intro loan hmem
    cases hmem
  · intro task hmem
    cases hmem
  · exact fun hheld => absurd hheld (hfree _ _)

end History

namespace Session

theorem Follows.history {session : Session} {history : History} {first : Pool}
    {events : List Event} (h : session.Follows events) (hsession : session.Sound)
    (hplain : ∀ event ∈ events, event.Plain) (hhistory : history.Sound first session) :
    (session.recount history events).Sound first (session.run events) := by
  induction events generalizing session history with
  | nil => exact hhistory
  | cons event rest ih =>
      obtain ⟨hroom, hpermits, hrest⟩ := h
      have hevent := hplain event List.mem_cons_self
      exact ih hrest (hsession.step hroom hpermits).1
        (fun other hother => hplain other (List.mem_cons_of_mem event hother))
        (hhistory.step hsession hroom hpermits hevent)

end Session

end PagePool
