import PagePool.Proofs.Pool.Completion
import PagePool.Proofs.Session.Discipline

/-!
# The invariant of a session

Between two events the pool is coherent, every call under way may go on when it gets its lock, and a
page that is lent for writing is owned by its borrower and stays in the cache. Each event keeps
this, since what one transaction does spares the calls and the loans of all others.
-/

namespace PagePool

open LockRecord Standing Pool

/-- What a transaction is doing with the page that its call has read is still up to date. -/
def Task.Sound (task : Task) (pool : Pool) (loans : List Loan) : Prop :=
  match task.wait with
  | .issued | .blocked .. => task.operation.Waits pool task.call
  | .reading loaded =>
      let id := task.operation.request.page
      task.operation.Entitled pool task.call ∧
        (∃ data, loaded = Page.load id data ∧ (pool.standing id).Reading task.call.tx data) ∧
        ∀ loan ∈ loans, loan.tx = task.call.tx → loan.mode = .exclusive → loan.page ≠ id

def Loan.Sound (loan : Loan) (pool : Pool) : Prop :=
  loan.mode = .exclusive → OwnedBy (pool.locks.table.records loan.page) loan.tx ∧
    pool.cache.peek? loan.page = some loan.ref

namespace Pool

/-- What a transaction has locked and changed is left to it. -/
structure Spares (tx : TxId) (before after : Pool) : Prop where
  tables_eq : after.tables = before.tables
  heldBy_iff : ∀ id, HeldBy (after.locks.table.records id) tx ↔
    HeldBy (before.locks.table.records id) tx
  ownedBy_iff : ∀ id, OwnedBy (after.locks.table.records id) tx ↔
    OwnedBy (before.locks.table.records id) tx
  peek?_eq : ∀ {id ref}, OwnedBy (before.locks.table.records id) tx →
    before.cache.peek? id = some ref → after.cache.peek? id = some ref ∧
      ((before.page ref).beforeImage.isSome → (after.page ref).beforeImage.isSome)

/-- What a transaction has read is still up to date. -/
def SparesReader (tx : TxId) (before after : Pool) : Prop :=
  ∀ {id data}, (before.standing id).Reading tx data → (after.standing id).Reading tx data

variable {before after : Pool} {deed : Deed} {tx other : TxId} {page : PageId}

theorem Spares.refl (tx : TxId) (pool : Pool) : pool.Spares tx pool :=
  ⟨rfl, fun _ => Iff.rfl, fun _ => Iff.rfl, fun _ hpeek => ⟨hpeek, fun himage => himage⟩⟩

theorem Evolves.spares (h : Evolves deed tx before after) (hbefore : before.Coherent)
    (hother : other ≠ tx) : before.Spares other after where
  tables_eq := h.tables_eq
  heldBy_iff id := (h.moves id).heldBy_iff hother
  ownedBy_iff id := (h.moves id).ownedBy_iff hother
  peek?_eq howner hpeek := h.peek?_eq hbefore howner hpeek

theorem Evolves.sparesReader (h : Evolves deed tx before after) (hbefore : before.Coherent)
    (hother : other ≠ tx) : before.SparesReader other after :=
  fun hreading => (h.moves _).reading (hbefore.coherent _) hreading hother

/-- A page that a transaction has given back. -/
structure Releases (tx : TxId) (page : PageId) (before after : Pool) : Prop where
  coherent : after.Coherent
  pageSize_eq : after.pageSize = before.pageSize
  tables_eq : after.tables = before.tables
  frames_eq : after.frames = before.frames
  standing_eq : ∀ id, after.standing id =
    if id = page then (before.standing id).unlock tx else before.standing id

theorem Releases.stored?_eq (h : before.Releases tx page after) (id : PageId) :
    after.stored? id = before.stored? id := by
  change (after.standing id).stored = (before.standing id).stored
  rw [h.standing_eq]
  split <;> rfl

theorem Releases.content_eq (h : before.Releases tx page after) :
    after.content = before.content := by
  funext id
  rw [content, content, h.standing_eq, h.pageSize_eq]
  split <;> rfl

theorem Releases.base_eq (h : before.Releases tx page after) : after.base = before.base := by
  funext id
  rw [base, base, h.standing_eq, h.pageSize_eq]
  split <;> rfl

theorem Unmodified.not_writtenBy (h : before.Unmodified tx page) :
    ¬(before.standing page).WrittenBy tx := by
  rintro ⟨howner, ref, object, hcached, himage⟩
  obtain ⟨hpeek, rfl⟩ := standing_cached_iff.1 hcached
  rw [h (LockTable.mode?_eq_exclusive_iff.2 howner) ref hpeek] at himage
  cases himage

theorem Releases.spares (h : before.Releases tx page after) (hother : other ≠ tx) :
    before.Spares other after where
  tables_eq := h.tables_eq
  heldBy_iff id := by
    change HeldBy (after.standing id).records other ↔ _
    rw [h.standing_eq]
    split
    · exact heldBy_filter_ne.trans (and_iff_left hother)
    · exact Iff.rfl
  ownedBy_iff id := by
    change OwnedBy (after.standing id).records other ↔ _
    rw [h.standing_eq]
    split
    · exact ownedBy_filter_ne.trans (and_iff_left hother)
    · exact Iff.rfl
  peek?_eq {id ref} _ hpeek := by
    have hcached : (after.standing id).cached = some (ref, before.page ref) := by
      rw [h.standing_eq]
      split <;> exact standing_cached hpeek
    obtain ⟨hpeek', hpage⟩ := standing_cached_iff.1 hcached
    exact ⟨hpeek', fun himage => hpage ▸ himage⟩

theorem Releases.sparesReader (h : before.Releases tx page after) (hother : other ≠ tx) :
    before.SparesReader other after := by
  intro id data hreading
  rw [h.standing_eq]
  split
  · exact hreading.unlock hother
  · exact hreading

theorem Finishes.spares {ending : Ending} (h : before.Finishes ending tx after)
    (hbefore : before.Coherent) (hother : other ≠ tx) : before.Spares other after where
  tables_eq := h.tables_eq
  heldBy_iff id := (h.heldBy_iff id).trans (and_iff_left hother)
  ownedBy_iff id := (h.ownedBy_iff id).trans (and_iff_left hother)
  peek?_eq {id ref} howner hpeek := by
    have hunheld : ¬HeldBy (before.locks.table.records id) tx := fun hheld =>
      hother ((hbefore.coherent id).compatible.heldBy_eq howner hheld).symm
    have hcached := standing_cached hpeek
    rw [← h.others_eq id hunheld] at hcached
    obtain ⟨hpeek', hpage⟩ := standing_cached_iff.1 hcached
    exact ⟨hpeek', fun himage => hpage ▸ himage⟩

theorem Finishes.sparesReader {ending : Ending} (h : before.Finishes ending tx after)
    (hbefore : before.Coherent) (hother : other ≠ tx) : before.SparesReader other after := by
  intro id data hreading
  have hunowned : ¬OwnedBy (before.locks.table.records id) tx := fun howner =>
    hother ((hbefore.coherent id).compatible.heldBy_eq howner hreading.heldBy)
  rw [h.standing_eq_of_unowned hbefore hunowned]
  exact hreading.unlock hother

theorem Spares.modified (h : before.Spares tx after) {ref : PageRef}
    (hmodified : before.Modified tx ref) : after.Modified tx ref := by
  obtain ⟨id, hpeek, howner, himage⟩ := hmodified
  obtain ⟨hpeek', himage'⟩ := h.peek?_eq howner hpeek
  exact ⟨id, hpeek', (h.ownedBy_iff id).2 howner, himage' himage⟩

end Pool

section Spared

variable {before after : Pool} {call : Call} {operation : Operation}

theorem Goal.Fits.spares {goal : Goal} {request : Request} (hfits : goal.Fits before call request)
    (h : before.Spares request.tx after) : goal.Fits after call request := by
  have hregistered : ∀ table, before.Registered table → after.Registered table := by
    intro table htable
    rwa [Registered, table?, h.tables_eq]
  cases goal with
  | insert insertion layout placement =>
      exact ⟨(grown?_congr h.tables_eq call).trans hfits.1, hregistered _ hfits.2.1, hfits.2.2⟩
  | stamp insertion index cell rest changed =>
      exact ⟨hfits.1, hfits.2.1, fun ref hmem => h.modified (hfits.2.2 ref hmem)⟩
  | _ => exact hfits

theorem Operation.Waits.spares (hwaits : operation.Waits before call)
    (h : before.Spares call.tx after) : operation.Waits after call where
  tx_eq := hwaits.tx_eq
  fits := hwaits.fits.spares (hwaits.tx_eq ▸ h)
  fresh hdrops := fun hheld => hwaits.fresh hdrops ((h.heldBy_iff _).1 hheld)

theorem Operation.Entitled.spares (hentitled : operation.Entitled before call)
    (h : before.Spares call.tx after) : operation.Entitled after call where
  tx_eq := hentitled.tx_eq
  fits := hentitled.fits.spares (hentitled.tx_eq ▸ h)
  heldBy := (h.heldBy_iff _).2 hentitled.heldBy
  ownedBy hmode := (h.ownedBy_iff _).2 (hentitled.ownedBy hmode)
  reader hdrops := fun howner => hentitled.reader hdrops ((h.ownedBy_iff _).1 howner)

theorem Task.Sound.spares {task : Task} {loans loans' : List Loan} (htask : task.Sound before loans)
    (h : before.Spares task.call.tx after)
    (hreading : ∀ {page data}, task.wait = .reading page →
      (before.standing task.operation.request.page).Reading task.call.tx data →
      (after.standing task.operation.request.page).Reading task.call.tx data)
    (hloans : ∀ loan ∈ loans', loan.tx = task.call.tx → loan ∈ loans) :
    task.Sound after loans' := by
  unfold Task.Sound at htask ⊢
  split at htask
  · exact htask.spares h
  · exact htask.spares h
  · next page hwait =>
    obtain ⟨hentitled, ⟨data, hpage, hread⟩, hunlent⟩ := htask
    exact ⟨hentitled.spares h, ⟨data, hpage, hreading hwait hread⟩, fun loan hmem htx =>
      hunlent loan (hloans loan hmem htx) htx⟩

theorem Loan.Sound.spares {loan : Loan} (hloan : loan.Sound before)
    (h : before.Spares loan.tx after) : loan.Sound after := by
  intro hmode
  obtain ⟨howner, hpeek⟩ := hloan hmode
  exact ⟨(h.ownedBy_iff _).2 howner, (h.peek?_eq howner hpeek).1⟩

theorem Loan.Sound.evolves {loan : Loan} {deed : Deed} {tx : TxId} (hloan : loan.Sound before)
    (h : Evolves deed tx before after) (hbefore : before.Coherent) : loan.Sound after := by
  intro hmode
  obtain ⟨howner, hpeek⟩ := hloan hmode
  exact ⟨h.ownedBy howner, (h.peek?_eq hbefore howner hpeek).1⟩

end Spared

namespace Session

structure Sound (session : Session) : Prop where
  coherent : session.pool.Coherent
  strict : session.pool.Strict
  one_each : ∀ task ∈ session.tasks, ∀ other ∈ session.tasks, task.call.tx = other.call.tx →
    task.id = other.id
  tasks_sound : ∀ task ∈ session.tasks, task.Sound session.pool session.loans
  loans_sound : ∀ loan ∈ session.loans, loan.Sound session.pool

/-- What holds while one call goes on: all is well but for the task of the call. -/
structure Serving (session : Session) (id : Nat) (tx : TxId) : Prop where
  coherent : session.pool.Coherent
  strict : session.pool.Strict
  others : ∀ task ∈ session.tasks, task.id ≠ id →
    task.call.tx ≠ tx ∧ task.Sound session.pool session.loans
  one_each : ∀ task ∈ session.tasks, ∀ other ∈ session.tasks, task.id ≠ id → other.id ≠ id →
    task.call.tx = other.call.tx → task.id = other.id
  loans_sound : ∀ loan ∈ session.loans, loan.Sound session.pool

variable {session : Session} {id : Nat} {tx : TxId} {call : Call} {deed : Deed} {pool : Pool}

theorem Sound.serving (h : session.Sound) (hidle : ∀ task ∈ session.tasks, task.id ≠ id →
    task.call.tx ≠ tx) : session.Serving id tx where
  coherent := h.coherent
  strict := h.strict
  others task hmem hid := ⟨hidle task hmem hid, h.tasks_sound task hmem⟩
  one_each task hmem other hother _ _ htx := h.one_each task hmem other hother htx
  loans_sound := h.loans_sound

theorem Sound.serving_task (h : session.Sound) {task : Task} (hmem : task ∈ session.tasks) :
    session.Serving task.id task.call.tx :=
  h.serving fun other hother hid htx => hid (h.one_each other hother task hmem htx)

theorem Serving.evolves (h : session.Serving id tx) (hevolves : Evolves deed tx session.pool pool) :
    Serving { session with pool } id tx where
  coherent := hevolves.coherent h.coherent
  strict table hmem := h.strict table (hevolves.tables_eq ▸ hmem)
  others task hmem hid := by
    obtain ⟨htx, htask⟩ := h.others task hmem hid
    refine ⟨htx, htask.spares (hevolves.spares h.coherent htx) ?_ fun loan hloan _ => hloan⟩
    exact fun _ hreading => hevolves.sparesReader h.coherent htx hreading
  one_each := h.one_each
  loans_sound loan hmem := (h.loans_sound loan hmem).evolves hevolves h.coherent

/-- What a stretch of a call does: the pool evolves, and all is well afterwards. The call may end
with a page that it lends. -/
structure Advances (call : Call) (before after : Session) : Prop where
  sound : after.Sound
  evolves : Evolves call.deed call.tx before.pool after.pool
  calls : ∀ task ∈ after.tasks, task.call = call ∨
    ∃ old ∈ before.tasks, old.id = task.id ∧ old.call = task.call
  log : after.log = before.log ∨ ∃ id outcome,
    after.log = .call id call outcome :: before.log ∧ outcome.Lends after.pool call

theorem Advances.of_evolves {middle after : Session} (h : middle.Advances call after)
    (hevolves : Evolves call.deed call.tx session.pool middle.pool)
    (htasks : middle.tasks = session.tasks) (hlog : middle.log = session.log) :
    session.Advances call after where
  sound := h.sound
  evolves := hevolves.trans h.evolves
  calls := by
    rw [← htasks]
    exact h.calls
  log := by
    rw [← hlog]
    exact h.log

theorem loans_close {outcome : Outcome} {loan : Loan}
    (hmem : loan ∈ (session.close id call outcome).loans) : loan ∈ session.loans ∨
      ∃ page mode ref, call = .get call.tx page mode ∧ outcome.result = .ok (.page ref) ∧
        loan = ⟨call.tx, page, mode, ref⟩ := by
  unfold loans close at hmem
  dsimp only at hmem
  unfold Entry.loans at hmem
  split at hmem
  · next heq => cases heq
  · next heq =>
    cases heq
    rcases List.mem_cons.1 hmem with hnew | hold
    · exact .inr ⟨_, _, _, rfl, rfl, hnew⟩
    · exact .inl hold
  · next heq => cases heq
  · next heq => cases heq
  · next heq =>
    cases heq
    exact .inl hmem

theorem Serving.close (h : session.Serving id call.tx) {outcome : Outcome}
    (hlends : outcome.Lends session.pool call) :
    session.Advances call (session.close id call outcome) := by
  have hold : ∀ task ∈ (session.close id call outcome).tasks, task ∈ session.tasks ∧ task.id ≠ id :=
    fun task hmem => by simpa [Session.close] using List.mem_filter.1 hmem
  refine ⟨⟨h.coherent, h.strict, ?_, ?_, ?_⟩, .refl h.coherent.toSound,
    fun task hmem => .inr ⟨task, (hold task hmem).1, rfl, rfl⟩, .inr ⟨id, outcome, rfl, hlends⟩⟩
  · intro task hmem other hother
    obtain ⟨hmem, hid⟩ := hold task hmem
    obtain ⟨hother, hid'⟩ := hold other hother
    exact h.one_each task hmem other hother hid hid'
  · intro task hmem
    obtain ⟨hmem, hid⟩ := hold task hmem
    obtain ⟨htx, htask⟩ := h.others task hmem hid
    refine htask.spares (.refl _ _) (fun _ hreading => hreading) fun loan hloan hborrower => ?_
    rcases loans_close hloan with hloan | ⟨_, _, _, _, _, rfl⟩
    · exact hloan
    · exact absurd hborrower.symm htx
  · intro loan hmem
    rcases loans_close hmem with hloan | ⟨page, mode, ref, hcall, hresult, rfl⟩
    · exact h.loans_sound loan hloan
    · intro hmode
      obtain ⟨page', mode', hcall', hpeek, _, howner⟩ := hlends ref hresult
      cases hcall.symm.trans hcall'
      exact ⟨howner hmode, hpeek⟩

/-- The task of a call that goes on waiting joins the tasks of the others. -/
theorem Serving.sound_of_tasks (h : session.Serving id tx) {after : Session} (task : Task)
    (hpool : after.pool = session.pool) (hlog : after.log = session.log)
    (htasks : ∀ other ∈ after.tasks, (other ∈ session.tasks ∧ other.id ≠ id) ∨ other = task)
    (hid : task.id = id) (htx : task.call.tx = tx) (htask : task.Sound session.pool session.loans) :
    after.Sound := by
  have hloans : after.loans = session.loans := by rw [loans, loans, hlog]
  refine ⟨hpool ▸ h.coherent, hpool ▸ h.strict, ?_, ?_, ?_⟩
  · intro first hfirst second hsecond hsame
    rcases htasks first hfirst with ⟨hold, hne⟩ | rfl
    · rcases htasks second hsecond with ⟨hold', hne'⟩ | rfl
      · exact h.one_each first hold second hold' hne hne' hsame
      · exact absurd (hsame.trans htx) (h.others first hold hne).1
    · rcases htasks second hsecond with ⟨hold', hne'⟩ | rfl
      · exact absurd (hsame.symm.trans htx) (h.others second hold' hne').1
      · rfl
  · intro other hother
    rw [hpool, hloans]
    rcases htasks other hother with ⟨hold, hne⟩ | rfl
    · exact (h.others other hold hne).2
    · exact htask
  · rw [hpool, hloans]
    exact h.loans_sound

theorem Serving.suspend (h : session.Serving id call.tx) {operation : Operation}
    (hwaits : operation.Waits session.pool call) :
    session.Advances call (session.suspend id call operation) := by
  have hevolves : Evolves .access call.tx session.pool (session.suspend id call operation).pool :=
    .locks_of_table h.coherent.toSound _ rfl
  have h' := h.evolves hevolves
  have htasks : ∀ other ∈ (session.suspend id call operation).tasks,
      (other ∈ session.tasks ∧ other.id ≠ id) ∨ other = ⟨id, call, operation, .issued⟩ := by
    intro other hother
    rcases List.mem_append.1 hother with hold | hnew
    · exact .inl (by simpa using hold)
    · exact .inr (List.mem_singleton.1 hnew)
  refine ⟨h'.sound_of_tasks ⟨id, call, operation, .issued⟩ rfl rfl htasks rfl rfl ?_,
    hevolves.weaken, fun other hother => ?_, .inl rfl⟩
  · exact ⟨hwaits.toSound.evolves hevolves h.coherent, hwaits.fresh⟩
  · rcases htasks other hother with ⟨hold, _⟩ | rfl
    · exact .inr ⟨other, hold, rfl, rfl⟩
    · exact .inl rfl

theorem Serving.setWait {task : Task} (h : session.Serving task.id task.call.tx) {wait : Wait}
    (htask : Task.Sound { task with wait } session.pool session.loans) :
    session.Advances task.call (session.setWait task wait) := by
  have htasks : ∀ other ∈ (session.setWait task wait).tasks,
      (other ∈ session.tasks ∧ other.id ≠ task.id) ∨ other = { task with wait } := by
    intro other hother
    obtain ⟨old, hold, rfl⟩ := List.mem_map.1 hother
    split
    · exact .inr rfl
    · next hne => exact .inl ⟨hold, hne⟩
  refine ⟨h.sound_of_tasks { task with wait } rfl rfl htasks rfl rfl htask,
    .refl h.coherent.toSound, fun other hother => ?_, .inl rfl⟩
  rcases htasks other hother with ⟨hold, _⟩ | rfl
  · exact .inr ⟨other, hold, rfl, rfl⟩
  · exact .inl rfl

/-- A stretch of a call gives an operation that waits, or an end. -/
theorem Serving.after (h : session.Serving id call.tx) (step : Action Step)
    (hstep : Ends step session.pool
      (fun step after => Evolves call.deed call.tx session.pool after ∧ step.Fits after call)
      (fun _ after => Evolves call.deed call.tx session.pool after)) (tuple : Option Tuple) :
    session.Advances call (session.after id call tuple (step session.pool)) := by
  unfold Ends at hstep
  unfold Session.after
  split
  · next failure pool hrun =>
    rw [hrun] at hstep
    exact ((h.evolves hstep).close (Outcome.lends_error pool call failure tuple)).of_evolves hstep
      rfl rfl
  · next operation pool hrun =>
    rw [hrun] at hstep
    exact ((h.evolves hstep.1).suspend hstep.2).of_evolves hstep.1 rfl rfl
  · next outcome pool hrun =>
    rw [hrun] at hstep
    exact ((h.evolves hstep.1).close hstep.2).of_evolves hstep.1 rfl rfl

section Tasks

variable {task : Task} (h : session.Serving task.id task.call.tx)
  (hroom : session.pool.HasRoomFor task.call)

include h

theorem Serving.fail {failure : Failure}
    (hevolves : Evolves task.call.deed task.call.tx session.pool pool) :
    session.Advances task.call (session.resume task (.error failure pool)) :=
  h.after (fun _ => .error failure pool) hevolves _

include hroom

theorem Serving.arrive (hentitled : task.operation.Entitled session.pool task.call) {data : Bytes}
    (hstored : session.pool.cache.peek? task.operation.request.page = none →
      session.pool.stored? task.operation.request.page = some data) :
    session.Advances task.call
      (session.arrive task (Page.load task.operation.request.page data)) := by
  refine h.after _ ?_ _
  refine (ends_install h.coherent task.call.tx hstored).bind ?_ fun _ _ hafter => hafter.weaken
  rintro ref middle ⟨hevolves, hlocks, hpeek⟩
  have hcoherent := hevolves.coherent h.coherent
  have hmiddle := hentitled.of_locks_eq hevolves h.coherent hlocks
  exact (ends_proceed hcoherent hpeek hmiddle rfl (hevolves.hasRoomFor h.coherent hroom)).mono
    (fun _ _ hafter => ⟨hevolves.weaken.trans hafter.1, hafter.2⟩)
    fun _ _ hafter => hevolves.weaken.trans hafter

/-- A task that has got its lock goes on with its page, or reads it first. -/
theorem Serving.granted (hentitled : task.operation.Entitled session.pool task.call) :
    session.Advances task.call (session.granted task) := by
  have hfetch := ends_fetch h.coherent task.call.tx task.operation.request.page
  unfold Ends at hfetch
  unfold Session.granted
  split
  · exact h.after (fun pool => .ok (.answer .unit) pool) ⟨.refl h.coherent.toSound,
      Outcome.lends_ok session.pool task.call none fun _ heq => by cases heq⟩ _
  split
  · next failure pool hrun =>
    rw [hrun] at hfetch
    exact h.fail hfetch.weaken
  · next ref pool hrun =>
    rw [hrun] at hfetch
    obtain ⟨hevolves, hlocks, hpeek⟩ := hfetch
    have h' := h.evolves hevolves
    refine (h'.after (task.operation.proceed ref) ?_ _).of_evolves hevolves.weaken rfl rfl
    exact ends_proceed h'.coherent hpeek (hentitled.of_locks_eq hevolves h.coherent hlocks) rfl
      (hevolves.hasRoomFor h.coherent hroom)
  · next page pool hrun =>
    rw [hrun] at hfetch
    obtain ⟨hevolves, hlocks, habsent, data, hstored, rfl⟩ := hfetch
    have h' := h.evolves hevolves
    have hentitled' := hentitled.of_locks_eq hevolves h.coherent hlocks
    dsimp only
    split
    · refine Advances.of_evolves
        (h'.setWait ⟨hentitled', ⟨data, rfl, hentitled'.heldBy, hstored, ?_⟩, ?_⟩)
        hevolves.weaken rfl rfl
      · intro ref cached hcached
        have hnone := standing_cached_none habsent
        rw [hnone] at hcached
        cases hcached
      · intro loan hloan _ hmode hpage
        obtain ⟨_, hpeek⟩ := h'.loans_sound loan hloan hmode
        rw [hpage, habsent] at hpeek
        cases hpeek
    · exact (h'.arrive (hevolves.hasRoomFor h.coherent hroom) hentitled' fun _ => hstored).of_evolves
        hevolves.weaken rfl rfl

/-- A request that nothing blocks is granted, and its task goes on. -/
theorem Serving.attempt (hwaits : task.operation.Waits session.pool task.call) (budget : Budget) :
    session.Advances task.call (session.attempt task budget) := by
  have hcases := session.pool.locks.attempt_cases task.operation.request budget session.now
  unfold Session.attempt
  split
  · next locks hattempt =>
    rw [hattempt] at hcases
    rcases hcases with ⟨_, hfree, htable⟩ | ⟨hne, _⟩
    · have hevolves : Evolves .access task.call.tx session.pool { session.pool with locks } :=
        hwaits.tx_eq ▸ evolves_grant h.coherent hfree htable
      have hentitled := hwaits.granted h.coherent hfree htable
      exact ((h.evolves hevolves).granted (hevolves.hasRoomFor h.coherent hroom) hentitled).of_evolves
        hevolves.weaken rfl rfl
    · exact absurd rfl hne
  · next locks hattempt =>
    rw [hattempt] at hcases
    obtain ⟨_, htable⟩ := hcases.resolve_left fun hgranted => by cases hgranted.1
    have hevolves : Evolves .access task.call.tx session.pool { session.pool with locks } :=
      .locks_of_table h.coherent.toSound locks htable
    refine Advances.of_evolves ((h.evolves hevolves).setWait
      ⟨hwaits.toSound.evolves hevolves h.coherent, ?_⟩) hevolves.weaken rfl rfl
    intro hdrops hheld
    apply hwaits.fresh hdrops
    rwa [← htable]
  · next error locks hattempt =>
    rw [hattempt] at hcases
    obtain ⟨_, htable⟩ := hcases.resolve_left fun hgranted => by cases hgranted.1
    exact h.fail (.locks_of_table h.coherent.toSound locks htable)

theorem Serving.evaluate (hwaits : task.operation.Waits session.pool task.call) :
    session.Advances task.call (session.evaluate task) := by
  have hevolves : Evolves .access task.call.tx session.pool
      { session.pool with locks := session.pool.locks.enter task.operation.request.tx } :=
    .locks_of_table h.coherent.toSound _ rfl
  have h' := h.evolves hevolves
  have hwaits' : task.operation.Waits
      { session.pool with locks := session.pool.locks.enter task.operation.request.tx } task.call :=
    ⟨hwaits.toSound.evolves hevolves h.coherent, hwaits.fresh⟩
  unfold Session.evaluate
  dsimp only
  split
  · next budget _ =>
    exact (h'.attempt (hevolves.hasRoomFor h.coherent hroom) hwaits' budget).of_evolves
      hevolves.weaken rfl rfl
  · exact (h'.fail (.refl h'.coherent.toSound)).of_evolves hevolves.weaken rfl rfl

theorem Serving.wake (hwaits : task.operation.Waits session.pool task.call) (budget : Budget)
    (timedOut : Bool) (elapsed : Nat) :
    session.Advances task.call
      (session.wake task budget timedOut elapsed) := by
  have h' : Serving { session with now := session.now + elapsed } task.id task.call.tx :=
    ⟨h.coherent, h.strict, h.others, h.one_each, h.loans_sound⟩
  exact (h'.attempt hroom hwaits (budget.afterWait timedOut)).of_evolves
    (.refl h.coherent.toSound) rfl rfl

end Tasks

theorem Sound.start (h : session.Sound) (hroom : session.pool.HasRoomFor call)
    (hidle : session.Idle call.tx) (hadmits : session.pool.Admits call)
    (hnew : session.task? id = none) :
    session.Advances call (session.start id call) := by
  unfold Session.start
  rw [hnew]
  exact (h.serving fun task hmem _ => hidle task hmem).after call.start
    (ends_start h.coherent hadmits h.strict hroom) _

theorem Sound.refl (h : session.Sound) (call : Call) : session.Advances call session :=
  ⟨h, .refl h.coherent.toSound, fun task hmem => .inr ⟨task, hmem, rfl, rfl⟩, .inl rfl⟩

theorem task?_mem {task : Task} (h : session.task? id = some task) :
    task ∈ session.tasks ∧ task.id = id :=
  ⟨List.mem_of_find?_eq_some h, by simpa using List.find?_some h⟩

theorem step_start (hunused : session.task? id = none) (call : Call) :
    session.step (.start id call) =
      (session.after id call call.inserted? (call.start session.pool)).deliver := by
  simp only [step, react, Session.start, hunused]

theorem step_evaluate {task : Task} (h : session.task? id = some task)
    (hissued : task.wait = .issued) :
    session.step (.evaluate id) = (session.evaluate task).deliver := by
  simp only [step, react, h, hissued]

theorem evolves_deliver (h : session.Sound) : Evolves deed tx session.pool session.deliver.pool :=
  .locks_of_table h.coherent.toSound _ rfl

theorem Sound.deliver (h : session.Sound) : session.deliver.Sound := by
  have hquiet : ∀ tx, Evolves .access tx session.pool session.deliver.pool := fun _ =>
    evolves_deliver h
  have htasks : ∀ task ∈ session.deliver.tasks, ∃ old ∈ session.tasks, old.id = task.id ∧
      old.call = task.call ∧
      (old.Sound session.pool session.loans → task.Sound session.pool session.loans) := by
    intro task hmem
    obtain ⟨old, hold, rfl⟩ := List.mem_map.1 hmem
    refine ⟨old, hold, ?_⟩
    unfold notifyTask
    split
    · next hwait => exact ⟨rfl, rfl, fun hsound => by simpa only [Task.Sound, hwait] using hsound⟩
    · exact ⟨rfl, rfl, fun hsound => hsound⟩
  refine ⟨(hquiet 0).coherent h.coherent, h.strict, ?_, ?_, ?_⟩
  · intro task hmem other hother hsame
    obtain ⟨old, hold, hid, hcall, _⟩ := htasks task hmem
    obtain ⟨old', hold', hid', hcall', _⟩ := htasks other hother
    rw [← hid, ← hid']
    exact h.one_each old hold old' hold' (by rw [hcall, hcall', hsame])
  · intro task hmem
    obtain ⟨old, hold, _, _, hsound⟩ := htasks task hmem
    have hne : task.call.tx ≠ task.call.tx + 1 := (Nat.succ_ne_self _).symm
    exact (hsound (h.tasks_sound old hold)).spares ((hquiet _).spares h.coherent hne)
      (fun _ hreading => (hquiet _).sparesReader h.coherent hne hreading) fun loan hloan _ => hloan
  · intro loan hmem
    exact (h.loans_sound loan hmem).evolves (hquiet 0) h.coherent

/-- Everything that waits for a lock or for bytes may go on. -/
theorem Sound.resume (h : session.Sound) {event : Event} {task : Task}
    (hroom : session.pool.HasRoomFor task.call) (htask : session.task? id = some task)
    (hevent : event = .evaluate id ∨ (∃ timedOut elapsed, event = .wake id timedOut elapsed) ∨
      event = .load id) :
    session.Advances task.call (session.react event) := by
  obtain ⟨hmem, rfl⟩ := task?_mem htask
  have hserving := h.serving_task hmem
  have hsound := h.tasks_sound task hmem
  unfold Task.Sound at hsound
  rcases hevent with rfl | ⟨timedOut, elapsed, rfl⟩ | rfl
  · simp only [react, htask]
    split
    · next hwait =>
      simp only [hwait] at hsound
      exact hserving.evaluate hroom hsound
    · exact h.refl task.call
  · simp only [react, htask]
    split
    · next budget _ hwait =>
      simp only [hwait] at hsound
      exact hserving.wake hroom hsound budget timedOut elapsed
    · exact h.refl task.call
  · simp only [react, htask]
    split
    · next page hwait =>
      simp only [hwait] at hsound
      obtain ⟨hentitled, ⟨data, rfl, hreading⟩, _⟩ := hsound
      exact hserving.arrive hroom hentitled fun _ => hreading.stored_eq
    · exact h.refl task.call

section Commands

variable {after : Session} (h : session.Sound)
include h

theorem Sound.of_command (htasks : after.tasks = session.tasks)
    (hpool : after.pool.Coherent) (htables : after.pool.tables = session.pool.tables)
    (hsound : ∀ task ∈ session.tasks, task.Sound session.pool session.loans →
      task.Sound after.pool after.loans)
    (hloans : ∀ loan ∈ after.loans, loan.Sound after.pool) : after.Sound where
  coherent := hpool
  strict table hmem := h.strict table (htables ▸ hmem)
  one_each := by
    rw [htasks]
    exact h.one_each
  tasks_sound := by
    rw [htasks]
    exact fun task hmem => hsound task hmem (h.tasks_sound task hmem)
  loans_sound := hloans

theorem Sound.serve (htasks : after.tasks = session.tasks) (hloans : after.loans = session.loans)
    (hevolves : ∀ tx, Evolves deed tx session.pool after.pool) : after.Sound := by
  apply h.of_command htasks ((hevolves 0).coherent h.coherent) (hevolves 0).tables_eq
  · intro task _ htask
    have hne : task.call.tx ≠ task.call.tx + 1 := (Nat.succ_ne_self _).symm
    rw [hloans]
    exact htask.spares ((hevolves _).spares h.coherent hne)
      (fun _ hreading => (hevolves _).sparesReader h.coherent hne hreading)
      fun loan hloan _ => hloan
  · rw [hloans]
    exact fun loan hmem => (h.loans_sound loan hmem).evolves (hevolves 0) h.coherent

theorem Sound.finished {ending : Ending} (hidle : session.Idle tx)
    (htasks : after.tasks = session.tasks)
    (hloans : after.loans = session.loans.filter (·.tx ≠ tx))
    (hfinishes : session.pool.Finishes ending tx after.pool) : after.Sound := by
  apply h.of_command htasks hfinishes.coherent hfinishes.tables_eq
  · intro task hmem htask
    have hne := hidle task hmem
    rw [hloans]
    exact htask.spares (hfinishes.spares h.coherent hne)
      (fun _ hreading => hfinishes.sparesReader h.coherent hne hreading)
      fun loan hloan _ => List.mem_of_mem_filter hloan
  · intro loan hmem
    rw [hloans] at hmem
    obtain ⟨hmem, hne⟩ := List.mem_filter.1 hmem
    exact (h.loans_sound loan hmem).spares (hfinishes.spares h.coherent (by simpa using hne))

theorem Sound.released {page : PageId} (hidle : session.Idle tx)
    (htasks : after.tasks = session.tasks)
    (hloans : after.loans = session.loans.filter fun loan => ¬(loan.tx = tx ∧ loan.page = page))
    (hreleases : session.pool.Releases tx page after.pool) : after.Sound := by
  apply h.of_command htasks hreleases.coherent hreleases.tables_eq
  · intro task hmem htask
    have hne := hidle task hmem
    rw [hloans]
    exact htask.spares (hreleases.spares hne)
      (fun _ hreading => hreleases.sparesReader hne hreading)
      fun loan hloan _ => List.mem_of_mem_filter hloan
  · intro loan hmem
    rw [hloans] at hmem
    obtain ⟨hmem, hkept⟩ := List.mem_filter.1 hmem
    have hloan := h.loans_sound loan hmem
    by_cases hborrower : loan.tx = tx
    · -- its other pages stand as before
      have hne : loan.page ≠ page := fun hpage => by simp [hborrower, hpage] at hkept
      have hstanding := hreleases.standing_eq loan.page
      rw [if_neg hne] at hstanding
      intro hmode
      obtain ⟨howner, hpeek⟩ := hloan hmode
      refine ⟨?_, (peek?_eq_of_standing hstanding).trans hpeek⟩
      change OwnedBy (after.pool.standing loan.page).records loan.tx
      rw [hstanding]
      exact howner
    · exact hloan.spares (hreleases.spares hborrower)

theorem Sound.written {loan : Loan} {page : Page} (hmem : loan ∈ session.loans)
    (hmode : loan.mode = .exclusive) (htasks : after.tasks = session.tasks)
    (hloans : after.loans = session.loans)
    (hpool : after.pool = session.pool.setPage loan.ref page)
    (hpage : (session.pool.page loan.ref).Rewritten loan.tx page) :
    after.Sound ∧ Evolves .change loan.tx session.pool after.pool := by
  obtain ⟨howner, hpeek⟩ := h.loans_sound loan hmem hmode
  have hevolves := (evolves_rewritten h.coherent.toSound hpeek howner hpage).1
  rw [← hpool] at hevolves
  refine ⟨h.of_command htasks (hevolves.coherent h.coherent) hevolves.tables_eq ?_ ?_, hevolves⟩
  · intro task hmemTask htask
    rw [hloans]
    by_cases hwriter : task.call.tx = loan.tx
    · have hlocks : after.pool.locks = session.pool.locks := by rw [hpool]; rfl
      have hspares : session.pool.Spares task.call.tx after.pool := by
        refine ⟨hevolves.tables_eq, fun _ => by rw [hlocks], fun _ => by rw [hlocks], ?_⟩
        exact fun howner hpeek => hevolves.peek?_eq h.coherent howner hpeek
      refine htask.spares hspares (fun hwait hreading => ?_) fun loan hloan _ => hloan
      -- what the writer reads is not lent to it
      have hne : task.operation.request.page ≠ loan.page := by
        unfold Task.Sound at htask
        simp only [hwait] at htask
        exact Ne.symm (htask.2.2 loan hmem hwriter.symm hmode)
      rwa [hpool, standing_setPage h.coherent.toSound hpeek, if_neg hne]
    · exact htask.spares (hevolves.spares h.coherent hwriter)
        (fun _ hreading => hevolves.sparesReader h.coherent hwriter hreading)
        fun loan hloan _ => hloan
  · rw [hloans]
    exact fun loan hmem => (h.loans_sound loan hmem).evolves hevolves h.coherent

end Commands

end Session

end PagePool
