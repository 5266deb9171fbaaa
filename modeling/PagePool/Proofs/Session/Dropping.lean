import PagePool.Proofs.Pool.Likeness
import PagePool.Proofs.Session.Step

/-!
# Runs that drop pages

Pages may be dropped from the cache at any time. Whoever has got the object of a dropped page may go
on to write it, but it is not the page any more: nothing that is done to it is ever seen, and it
does not come back into the cache.

So a session that drops pages goes on like one that has never lent the objects that are gone. That
session keeps to the discipline without drops, and all that holds of its events holds here.
-/

namespace PagePool

open LockRecord Standing

/-- An entry that leaves a loan behind. -/
def Loan.entry (loan : Loan) : Entry :=
  .call 0 (.get loan.tx loan.page loan.mode) ⟨.ok (.page loan.ref), none⟩

namespace Pool

/-- The pool after a page has been dropped. -/
def without (pool : Pool) (page : PageId) : Pool :=
  { pool with cache := pool.cache.remove page }

end Pool

namespace Session

/-- No insertion under way is still to mark the object of the page. -/
def Unclaimed (session : Session) (page : PageId) : Prop :=
  ∀ task ∈ session.tasks, ∀ ref ∈ session.pool.cache.peek? page,
    ref ∉ task.operation.goal.changed

/-- Pages are dropped by anybody, and no page is given back early. -/
def PermitsDrops (session : Session) : Event → Prop
  | .command (.discardPage page) => session.Unclaimed page
  | .command (.release ..) => False
  | event => session.Permits event

/-- Every event of a run is permitted when it happens, drops of pages too, and each heap table has
fewer than 2 ^ 32 pages whenever an insertion into it goes on. -/
def FollowsDropping (session : Session) : List Event → Prop
  | [] => True
  | event :: rest => session.HasRoom event ∧ session.PermitsDrops event ∧
      (session.step event).FollowsDropping rest

def withLog (session : Session) (log : List Entry) : Session :=
  { session with log }

/-- The pages lent for writing that are still in the cache, with the object that was lent. -/
def afloat (session : Session) : List Loan :=
  session.loans.filter fun loan =>
    loan.mode = .exclusive ∧ session.pool.cache.peek? loan.page = some loan.ref

/-- The session, had it lent nothing else. -/
def salvaged (session : Session) : Session :=
  session.withLog (session.afloat.map Loan.entry)

/-- What holds of a session that drops pages. -/
structure Weathers (session : Session) : Prop where
  sound : session.salvaged.Sound
  named : ∀ loan ∈ session.loans, loan.mode = .exclusive →
    loan.ref < session.pool.frames.next ∧ (session.pool.page loan.ref).id = loan.page

section Decidable

variable (session : Session)

instance (page : PageId) : Decidable (session.Unclaimed page) :=
  inferInstanceAs (Decidable (∀ task ∈ session.tasks, ∀ ref ∈ session.pool.cache.peek? page, _))

instance : (event : Event) → Decidable (session.PermitsDrops event)
  | .command (.discardPage page) => inferInstanceAs (Decidable (session.Unclaimed page))
  | .command (.release ..) => inferInstanceAs (Decidable False)
  | .command (.read handle) => inferInstanceAs (Decidable (session.Permits (.command (.read handle))))
  | .command (.write handle tx offset bytes) =>
      inferInstanceAs (Decidable (session.Permits (.command (.write handle tx offset bytes))))
  | .command (.mark handle tx dirty) =>
      inferInstanceAs (Decidable (session.Permits (.command (.mark handle tx dirty))))
  | .command (.flushPage page) =>
      inferInstanceAs (Decidable (session.Permits (.command (.flushPage page))))
  | .command (.flushTransaction tx) =>
      inferInstanceAs (Decidable (session.Permits (.command (.flushTransaction tx))))
  | .command .flushAll => inferInstanceAs (Decidable (session.Permits (.command .flushAll)))
  | .command (.completeLocks tx) =>
      inferInstanceAs (Decidable (session.Permits (.command (.completeLocks tx))))
  | .command (.finish ending tx) =>
      inferInstanceAs (Decidable (session.Permits (.command (.finish ending tx))))
  | .start id call => inferInstanceAs (Decidable (session.Permits (.start id call)))
  | .evaluate id => inferInstanceAs (Decidable (session.Permits (.evaluate id)))
  | .wake id timedOut elapsed =>
      inferInstanceAs (Decidable (session.Permits (.wake id timedOut elapsed)))
  | .load id => inferInstanceAs (Decidable (session.Permits (.load id)))

instance decidableFollowsDropping : (session : Session) → (events : List Event) →
    Decidable (session.FollowsDropping events)
  | _, [] => inferInstanceAs (Decidable True)
  | session, event :: rest =>
      have := decidableFollowsDropping (session.step event) rest
      inferInstanceAs (Decidable (session.HasRoom event ∧ session.PermitsDrops event ∧
        (session.step event).FollowsDropping rest))

end Decidable

/-! ### What a session does is not told by its log -/

/-- Sessions that differ in their logs only, each of which goes on from the log it was given. -/
def Blind (given : List Entry → Session) : Prop :=
  ∃ (session : Session) (new : List Entry), ∀ log, given log = session.withLog (new ++ log)

section Blind

variable (session : Session) (task : Task)

theorem blind_self : Blind fun log => session.withLog log :=
  ⟨session, [], fun _ => rfl⟩

theorem blind_after (id : Nat) (call : Call) (tuple : Option Tuple)
    (result : EStateM.Result Failure Pool Step) :
    Blind fun log => (session.withLog log).after id call tuple result := by
  match result with
  | .error failure pool =>
      exact ⟨session.after id call tuple (.error failure pool),
        [.call id call ⟨.error failure, tuple⟩], fun _ => rfl⟩
  | .ok (.ask operation) pool =>
      exact ⟨session.after id call tuple (.ok (.ask operation) pool), [], fun _ => rfl⟩
  | .ok (.done outcome) pool =>
      exact ⟨session.after id call tuple (.ok (.done outcome) pool), [.call id call outcome],
        fun _ => rfl⟩

theorem blind_arrive (page : Page) : Blind fun log => (session.withLog log).arrive task page :=
  blind_after session task.id task.call task.operation.goal.inserted?
    ((install page >>= task.operation.proceed) session.pool)

theorem blind_granted : Blind fun log => (session.withLog log).granted task := by
  have hpool : ∀ log, (session.withLog log).pool = session.pool := fun _ => rfl
  unfold Session.granted
  simp only [hpool]
  split
  · exact blind_after session ..
  split
  · exact blind_after session ..
  · exact blind_after session ..
  · next page pool _ =>
    split
    · exact ⟨{ session with pool }.setWait task (.reading page), [], fun _ => rfl⟩
    · exact blind_arrive { session with pool } task page

theorem blind_attempt (budget : Budget) :
    Blind fun log => (session.withLog log).attempt task budget := by
  have hpool : ∀ log, (session.withLog log).pool = session.pool := fun _ => rfl
  have hnow : ∀ log, (session.withLog log).now = session.now := fun _ => rfl
  unfold Session.attempt
  simp only [hpool, hnow]
  split
  · next locks _ => exact blind_granted (session.withLocks locks) task
  · next locks _ =>
    exact ⟨(session.withLocks locks).setWait task (.blocked budget false), [], fun _ => rfl⟩
  · exact blind_after session ..

theorem blind_evaluate : Blind fun log => (session.withLog log).evaluate task := by
  have hlocks : ∀ log, (session.withLog log).withLocks
      ((session.withLog log).pool.locks.enter task.operation.request.tx) =
        (session.withLocks (session.pool.locks.enter task.operation.request.tx)).withLog log :=
    fun _ => rfl
  unfold Session.evaluate
  simp only [hlocks]
  generalize session.withLocks (session.pool.locks.enter task.operation.request.tx) = entered
  have hpool : ∀ log, (entered.withLog log).pool = entered.pool := fun _ => rfl
  have hnow : ∀ log, (entered.withLog log).now = entered.now := fun _ => rfl
  simp only [hpool, hnow]
  split
  · exact blind_attempt entered ..
  · exact blind_after entered ..

theorem blind_execute (command : Command) :
    Blind fun log => (session.withLog log).execute command := by
  have haction : ∀ log, (session.withLog log).action command (session.withLog log).pool =
      session.action command session.pool := fun _ => by cases command <;> rfl
  unfold Session.execute
  simp only [haction]
  split
  · next answer pool _ =>
    exact ⟨{ session with pool }, [.command command (.ok answer)], fun _ => rfl⟩
  · next failure pool _ =>
    exact ⟨{ session with pool }, [.command command (.error failure)], fun _ => rfl⟩

theorem blind_react (event : Event) : Blind fun log => (session.withLog log).react event := by
  have htask : ∀ log id, (session.withLog log).task? id = session.task? id := fun _ _ => rfl
  cases event with
  | start id call =>
      simp only [react, Session.start, htask]
      split
      · exact blind_self session
      · exact blind_after session id call call.inserted? (call.start session.pool)
  | command command => exact blind_execute session command
  | evaluate id =>
      simp only [react, htask]
      split
      · split
        · exact blind_evaluate session ..
        · exact blind_self session
      · exact blind_self session
  | wake id timedOut elapsed =>
      simp only [react, htask]
      split
      · split
        · exact blind_attempt { session with now := session.now + elapsed } ..
        · exact blind_self session
      · exact blind_self session
  | load id =>
      simp only [react, htask]
      split
      · split
        · exact blind_arrive session ..
        · exact blind_self session
      · exact blind_self session

/-- Whatever the log says, a session does the same, and adds the same to the log. -/
theorem step_withLog (event : Event) : ∃ new, (session.step event).log = new ++ session.log ∧
    ∀ log, (session.withLog log).step event = (session.step event).withLog (new ++ log) := by
  obtain ⟨after, new, hreact⟩ := blind_react session event
  have hstep : ∀ log, (session.withLog log).step event = after.deliver.withLog (new ++ log) :=
    fun log => congrArg deliver (hreact log)
  have hself : session.step event = after.deliver.withLog (new ++ session.log) :=
    hstep session.log
  refine ⟨new, congrArg Session.log hself, fun log => ?_⟩
  rw [hstep, hself]
  rfl

end Blind

end Session

/-! ### What becomes of loans -/

namespace Entry

variable {log log' : List Entry} {Kept : Loan → Prop}

theorem loans_cons_mono (h : ∀ loan ∈ loans log, Kept loan → loan ∈ loans log') (entry : Entry) :
    ∀ loan ∈ loans (entry :: log), Kept loan → loan ∈ loans (entry :: log') := by
  intro loan hmem hkept
  unfold Entry.loans at hmem ⊢
  split at hmem
  · next heq => cases heq
  · next heq =>
    cases heq
    rcases List.mem_cons.1 hmem with rfl | hold
    · exact List.mem_cons_self
    · exact List.mem_cons_of_mem _ (h loan hold hkept)
  · next heq =>
    cases heq
    obtain ⟨hold, hstays⟩ := List.mem_filter.1 hmem
    exact List.mem_filter.2 ⟨h loan hold hkept, hstays⟩
  · next heq =>
    cases heq
    obtain ⟨hold, hstays⟩ := List.mem_filter.1 hmem
    exact List.mem_filter.2 ⟨h loan hold hkept, hstays⟩
  · next heq =>
    cases heq
    split
    all_goals simp_all

/-- Whatever ends later does to two logs alike. -/
theorem loans_append_mono (h : ∀ loan ∈ loans log, Kept loan → loan ∈ loans log')
    (new : List Entry) :
    ∀ loan ∈ loans (new ++ log), Kept loan → loan ∈ loans (new ++ log') := by
  induction new with
  | nil => exact h
  | cons entry rest ih => exact loans_cons_mono ih entry

/-- A loan is new, or was there before. -/
theorem mem_loans_append {new : List Entry} {loan : Loan} (h : loan ∈ loans (new ++ log)) :
    loan ∈ loans new ∨ loan ∈ loans log := by
  by_cases hold : loan ∈ loans log
  · exact .inr hold
  · refine .inl ?_
    have hnew := @loans_append_mono log [] (· ∉ loans log) (fun _ hmem hnot => absurd hmem hnot) new
    simpa using hnew loan h hold

theorem mem_loans_append_left {new : List Entry} {loan : Loan} (h : loan ∈ loans new) :
    loan ∈ loans (new ++ log) := by
  have hnew := @loans_append_mono [] log (fun _ => True) (fun _ hmem => nomatch hmem) new
  exact hnew loan (by simpa using h) trivial

theorem loans_map_entry (loans : List Loan) : Entry.loans (loans.map Loan.entry) = loans := by
  induction loans with
  | nil => rfl
  | cons loan rest ih => exact congrArg (loan :: ·) ih

end Entry

/-! ### What becomes of objects -/

namespace Pool

variable {pool before after : Pool} {tx : TxId} {ending : Ending} {id page : PageId}
  {ref : PageRef}

theorem Finishes.peek?_eq (h : before.Finishes ending tx after) (id : PageId) :
    after.cache.peek? id = before.cache.peek? id := by
  have hpeek : ∀ pool : Pool, pool.cache.peek? id = (pool.standing id).cached.map Prod.fst := by
    intro pool
    simp [standing, Function.comp_def]
  rw [hpeek, hpeek]
  by_cases hheld : HeldBy (before.locks.table.records id) tx
  · rw [h.held_eq id hheld]
    cases hcached : (before.standing id).cached with
    | none => rw [settle_of_absent hcached, unlock, hcached]
    | some entry =>
        rw [settle_of_cached hcached]
        rfl
  · rw [h.others_eq id hheld]

theorem Finishes.id_eq (h : before.Finishes ending tx after) (hbefore : before.Sound)
    (ref : PageRef) : (after.page ref).id = (before.page ref).id := by
  by_cases hresident : ∃ id, HeldBy (before.locks.table.records id) tx ∧
      before.cache.peek? id = some ref
  · obtain ⟨id, _, hpeek⟩ := hresident
    rw [hbefore.named hpeek, h.coherent.named ((h.peek?_eq id).trans hpeek)]
  · rw [h.page_eq ref fun id hheld hpeek => hresident ⟨id, hheld, hpeek⟩]

/-- Nothing is changed about any page when an object that is out of the cache is. -/
theorem standing_setPage_of_gone (hgone : ∀ id, pool.cache.peek? id ≠ some ref) (object : Page)
    (id : PageId) : (pool.setPage ref object).standing id = pool.standing id := by
  have hcache : (pool.setPage ref object).cache = pool.cache := rfl
  simp only [standing, hcache]
  congr 1
  refine Option.map_congr fun other hother => ?_
  rw [page_setPage, if_neg]
  rintro ⟨rfl, _⟩
  exact hgone id hother

theorem evolves_setPage_of_gone (hpool : pool.Sound)
    (hgone : ∀ id, pool.cache.peek? id ≠ some ref) {object : Page}
    (hid : object.id = (pool.page ref).id) : Evolves .change tx pool (pool.setPage ref object) := by
  have hids : ∀ other, ((pool.setPage ref object).page other).id = (pool.page other).id := by
    intro other
    rw [page_setPage]
    split
    · next h => rw [h.1, hid]
    · rfl
  have hnext : (pool.setPage ref object).frames.next = pool.frames.next := next_setPage pool ref object
  refine ⟨⟨hpool.nodup, ?_, ?_, hpool.backed, hpool.reliable, hpool.apart⟩, rfl, rfl,
    Nat.le_of_eq hnext.symm, fun id => Moves.of_eq (standing_setPage_of_gone hgone object id),
    fun other _ => hids other, fun hquiet => absurd rfl hquiet, .inl⟩
  · intro id other hother
    rw [hnext]
    exact hpool.inside hother
  · intro id other hother
    rw [hids]
    exact hpool.named hother

theorem standing_without (pool : Pool) (page id : PageId) :
    (pool.without page).standing id =
      if id = page then { pool.standing id with cached := none } else pool.standing id := by
  have hpeek : (pool.without page).cache.peek? id = _ := Cache.peek?_remove pool.cache page id
  simp only [standing, hpeek]
  split <;> rfl

theorem Coherent.without (hpool : pool.Coherent) (page : PageId) :
    (pool.without page).Coherent := by
  have hpeek : ∀ {id ref}, (pool.without page).cache.peek? id = some ref →
      pool.cache.peek? id = some ref := by
    intro id ref h
    change (pool.cache.remove page).peek? id = some ref at h
    rw [Cache.peek?_remove] at h
    exact (Option.ite_none_left_eq_some.1 h).2
  refine ⟨⟨Cache.nodup_remove hpool.nodup page, fun h => hpool.inside (hpeek h),
    fun h => hpool.named (hpeek h), hpool.backed, hpool.reliable, hpool.apart⟩, fun id => ?_⟩
  rw [standing_without]
  split
  · exact ⟨(hpool.coherent id).compatible, fun _ _ hcached => by cases hcached⟩
  · exact hpool.coherent id

end Pool

section Without

variable {pool : Pool} {page : PageId} {call : Call}

theorem Pool.Modified.without {tx : TxId} {ref : PageRef} (h : pool.Modified tx ref)
    (hother : pool.cache.peek? page ≠ some ref) : (pool.without page).Modified tx ref := by
  obtain ⟨id, hpeek, howner, himage⟩ := h
  have hne : id ≠ page := by
    rintro rfl
    exact hother hpeek
  exact ⟨id, (Cache.peek?_remove ..).trans ((if_neg hne).trans hpeek), howner, himage⟩

theorem Goal.Fits.without {goal : Goal} {request : Request} (h : goal.Fits pool call request)
    (hunclaimed : ∀ ref ∈ pool.cache.peek? page, ref ∉ goal.changed) :
    goal.Fits (pool.without page) call request := by
  cases goal with
  | stamp insertion index cell rest changed =>
      refine ⟨h.1, h.2.1, fun ref hmem => (h.2.2 ref hmem).without fun hpeek => ?_⟩
      exact hunclaimed ref hpeek hmem
  | _ => exact h

theorem Task.Sound.without {task : Task} {loans loans' : List Loan} (h : task.Sound pool loans)
    (hunclaimed : ∀ ref ∈ pool.cache.peek? page, ref ∉ task.operation.goal.changed)
    (hloans : ∀ loan ∈ loans', loan ∈ loans) : task.Sound (pool.without page) loans' := by
  unfold Task.Sound at h ⊢
  split at h
  · exact ⟨⟨h.tx_eq, h.fits.without hunclaimed⟩, h.fresh⟩
  · exact ⟨⟨h.tx_eq, h.fits.without hunclaimed⟩, h.fresh⟩
  · obtain ⟨hentitled, ⟨data, hpage, hreading⟩, hunlent⟩ := h
    refine ⟨⟨⟨hentitled.tx_eq, hentitled.fits.without hunclaimed⟩, hentitled.heldBy,
      hentitled.ownedBy, hentitled.reader⟩, ⟨data, hpage, ?_⟩,
      fun loan hmem => hunlent loan (hloans loan hmem)⟩
    rw [Pool.standing_without]
    split
    · exact ⟨hreading.heldBy, hreading.stored_eq, fun _ _ hcached => by cases hcached⟩
    · exact hreading

end Without

namespace Session

variable {session after : Session} {event : Event} {page : PageId}

namespace Effect

variable (h : session.Effect event after)
include h

theorem fresh {id : PageId} {ref : PageRef} (hpeek : after.pool.cache.peek? id = some ref) :
    session.pool.cache.peek? id = some ref ∨ session.pool.frames.next ≤ ref := by
  cases h with
  | finish _ _ h => exact .inl ((h.peek?_eq id).symm.trans hpeek)
  | release _ h =>
      have hcached := Pool.standing_cached hpeek
      rw [h.standing_eq] at hcached
      have hbefore : (session.pool.standing id).cached = some (ref, after.pool.page ref) := by
        rw [← hcached]
        split <;> rfl
      exact .inl (Pool.standing_cached_iff.1 hbefore).1
  | act _ _ _ h => exact h.fresh hpeek
  | serve _ h => exact (h 0).fresh hpeek

theorem next_le : session.pool.frames.next ≤ after.pool.frames.next := by
  cases h with
  | finish _ _ h => exact Nat.le_of_eq h.next_eq.symm
  | release _ h => exact Nat.le_of_eq (congrArg Frames.next h.frames_eq).symm
  | act _ _ _ h => exact h.next_le
  | serve _ h => exact (h 0).next_le

theorem id_eq (hsession : session.pool.Sound) {ref : PageRef}
    (hin : ref < session.pool.frames.next) :
    (after.pool.page ref).id = (session.pool.page ref).id := by
  cases h with
  | finish _ _ h => exact h.id_eq hsession ref
  | release _ h => rw [Pool.page, h.frames_eq, Pool.page]
  | act _ _ _ h => exact h.id_eq ref hin
  | serve _ h => exact (h 0).id_eq ref hin

end Effect

theorem mem_afloat {loan : Loan} : loan ∈ session.afloat ↔ loan ∈ session.loans ∧
    loan.mode = .exclusive ∧ session.pool.cache.peek? loan.page = some loan.ref := by
  simp [afloat]

theorem loans_salvaged (session : Session) : session.salvaged.loans = session.afloat :=
  Entry.loans_map_entry session.afloat

theorem Sound.of_fewer (h : session.Sound) {log : List Entry}
    (hfewer : ∀ loan ∈ Entry.loans log, loan ∈ session.loans) : (session.withLog log).Sound where
  coherent := h.coherent
  strict := h.strict
  one_each := h.one_each
  tasks_sound task hmem := (h.tasks_sound task hmem).spares (.refl _ _)
    (fun _ hreading => hreading) fun loan hloan _ => hfewer loan hloan
  loans_sound loan hmem := h.loans_sound loan (hfewer loan hmem)

/-- The same events are permitted that the session permits, but for writes to objects that are out
of the cache. -/
theorem permits_salvaged (hpermits : session.PermitsDrops event)
    (hkeeps : ∀ page, event ≠ .command (.discardPage page))
    (hafloat : ∀ {handle tx offset bytes}, event = .command (.write handle tx offset bytes) →
      session.salvaged.Writable handle tx) : session.salvaged.Permits event := by
  cases event with
  | command command =>
      cases command with
      | write handle tx offset bytes => exact hafloat rfl
      | discardPage page => exact absurd rfl (hkeeps page)
      | release => exact hpermits.elim
      | _ => exact hpermits
  | _ => exact hpermits

/-- An event of the session in which nothing else has been lent is one of this session. -/
theorem Weathers.step_salvaged (h : session.Weathers) (hroom : session.HasRoom event)
    (hpermits : session.salvaged.Permits event) :
    (session.step event).Weathers ∧ session.Effect event (session.step event) := by
  obtain ⟨new, hlog, hnew⟩ := step_withLog session event
  have hstep := h.sound.step hroom hpermits
  rw [salvaged, hnew] at hstep
  obtain ⟨hsound, heffect⟩ := hstep
  have heffect' : session.Effect event (session.step event) := by
    cases heffect with
    | @finish ending tx hevent hended hfinishes =>
        have hentry : new ++ session.afloat.map Loan.entry =
            [.command (.finish ending tx) (.ok .unit)] ++ session.afloat.map Loan.entry := hended
        refine .finish hevent ?_ hfinishes
        rw [hlog, List.append_cancel_right hentry]
        rfl
    | release hevent hreleases => exact .release hevent hreleases
    | act hevent hactor hkept hevolves => exact .act hevent hactor hkept hevolves
    | serve hactor hserves => exact .serve hactor hserves
  have hold : ∀ loan ∈ session.loans, loan.mode = .exclusive ∧
      (session.step event).pool.cache.peek? loan.page = some loan.ref →
        loan ∈ Entry.loans (session.afloat.map Loan.entry) := by
    rintro loan hmem ⟨hmode, hpeek⟩
    rw [Entry.loans_map_entry]
    refine mem_afloat.2 ⟨hmem, hmode, (heffect'.fresh hpeek).resolve_right ?_⟩
    exact Nat.not_le.2 (h.named loan hmem hmode).1
  refine ⟨⟨?_, fun loan hmem hmode => ?_⟩, heffect'⟩
  · refine hsound.of_fewer fun loan hmem => ?_
    rw [Entry.loans_map_entry] at hmem
    obtain ⟨hmem, hafloat⟩ := mem_afloat.1 hmem
    rw [loans, hlog] at hmem
    exact Entry.loans_append_mono hold new loan hmem hafloat
  · rw [loans, hlog] at hmem
    rcases Entry.mem_loans_append hmem with hlent | hlent
    · obtain ⟨_, hpeek⟩ := hsound.loans_sound loan (Entry.mem_loans_append_left hlent) hmode
      exact ⟨hsound.coherent.inside hpeek, hsound.coherent.named hpeek⟩
    · obtain ⟨hin, hid⟩ := h.named loan hlent hmode
      exact ⟨Nat.lt_of_lt_of_le hin heffect'.next_le,
        (heffect'.id_eq h.sound.coherent.toSound hin).trans hid⟩

theorem Weathers.deliver (h : session.Weathers) : session.deliver.Weathers where
  sound := h.sound.deliver
  named := h.named

/-- A write to an object that is out of the cache is a write to no page. -/
theorem Weathers.step_gone (h : session.Weathers) {handle : Nat} {tx : TxId} {offset : Nat}
    {bytes : Bytes} (hwritable : session.Writable handle tx)
    (hgone : ¬session.salvaged.Writable handle tx) :
    (session.step (.command (.write handle tx offset bytes))).Weathers ∧
      session.Effect (.command (.write handle tx offset bytes))
        (session.step (.command (.write handle tx offset bytes))) := by
  obtain ⟨entry, hentry, loan, hmem, htx, hmode, href⟩ := hwritable
  have hsound : session.pool.Sound := h.sound.coherent.toSound
  obtain ⟨_, hid⟩ := h.named loan hmem hmode
  have habsent : ∀ id, session.pool.cache.peek? id ≠ some entry.ref := by
    intro id hpeek
    rw [href, hsound.named hpeek] at hid
    refine hgone ⟨entry, hentry, loan, ?_, htx, hmode, href⟩
    rw [loans_salvaged]
    exact mem_afloat.2 ⟨hmem, hmode, by rw [← hid, hpeek, href]⟩
  obtain ⟨result, hresult⟩ := session.execute_write hentry tx offset bytes
  have hevolves : ∀ actor, Pool.Evolves .change actor session.pool
      (session.execute (.write handle tx offset bytes)).pool := by
    intro actor
    rw [hresult]
    exact Pool.evolves_setPage_of_gone hsound habsent rfl
  have hweathers : (session.execute (.write handle tx offset bytes)).Weathers := by
    refine ⟨h.sound.serve ?_ ?_ hevolves, fun other hother hexclusive => ?_⟩
    · rw [hresult]
      rfl
    · rw [loans_salvaged, loans_salvaged, hresult]
      rfl
    · rw [hresult] at hother
      obtain ⟨hin, hid⟩ := h.named other hother hexclusive
      exact ⟨Nat.lt_of_lt_of_le hin (hevolves 0).next_le,
        ((hevolves 0).id_eq _ hin).trans hid⟩
  refine ⟨hweathers.deliver, .act (by simp) rfl (by simp) ((hevolves tx).trans ?_)⟩
  exact .locks_of_table hweathers.sound.coherent.toSound _ rfl

/-- A page may be dropped when no insertion under way is to mark it. -/
theorem Weathers.step_drop (h : session.Weathers) (hunclaimed : session.Unclaimed page) :
    (session.step (.command (.discardPage page))).Weathers := by
  have hpeek : ∀ id, (session.pool.without page).cache.peek? id =
      if id = page then none else session.pool.cache.peek? id := fun id =>
    Cache.peek?_remove session.pool.cache page id
  have hafloat : ∀ loan, loan ∈ (session.execute (.discardPage page)).afloat →
      loan ∈ session.afloat ∧ loan.page ≠ page := by
    intro loan hmem
    obtain ⟨hmem, hmode, hresident⟩ := mem_afloat.1 hmem
    rw [show (session.execute (.discardPage page)).pool = session.pool.without page from rfl,
      hpeek] at hresident
    obtain ⟨hne, hresident⟩ := Option.ite_none_left_eq_some.1 hresident
    exact ⟨mem_afloat.2 ⟨hmem, hmode, hresident⟩, hne⟩
  have hweathers : (session.execute (.discardPage page)).Weathers := by
    refine ⟨h.sound.of_command rfl (h.sound.coherent.without page) rfl ?_ ?_, h.named⟩
    · intro task hmem htask
      refine htask.without (hunclaimed task hmem) fun loan hloan => ?_
      rw [loans_salvaged] at hloan ⊢
      exact (hafloat loan hloan).1
    · intro loan hmem hmode
      rw [loans_salvaged] at hmem
      obtain ⟨hold, hne⟩ := hafloat loan hmem
      rw [← loans_salvaged] at hold
      obtain ⟨howner, hresident⟩ := h.sound.loans_sound loan hold hmode
      exact ⟨howner, (hpeek loan.page).trans ((if_neg hne).trans hresident)⟩
  exact hweathers.deliver

/-- Every event has an effect as in runs without drops, or drops a page. -/
theorem Weathers.step (h : session.Weathers) (hroom : session.HasRoom event)
    (hpermits : session.PermitsDrops event) :
    (session.step event).Weathers ∧ (session.Effect event (session.step event) ∨
      ∃ page, event = .command (.discardPage page)) := by
  by_cases hdrops : ∃ page, event = .command (.discardPage page)
  · obtain ⟨page, rfl⟩ := hdrops
    exact ⟨h.step_drop hpermits, .inr ⟨page, rfl⟩⟩
  have hkeeps : ∀ page, event ≠ .command (.discardPage page) := fun page heq => hdrops ⟨page, heq⟩
  by_cases hafloat : ∀ {handle tx offset bytes}, event = .command (.write handle tx offset bytes) →
      session.salvaged.Writable handle tx
  · have hstep := h.step_salvaged hroom (permits_salvaged hpermits hkeeps hafloat)
    exact ⟨hstep.1, .inl hstep.2⟩
  · simp only [not_forall] at hafloat
    obtain ⟨handle, tx, offset, bytes, rfl, hgone⟩ := hafloat
    have hstep := @Weathers.step_gone session h handle tx offset bytes hpermits hgone
    exact ⟨hstep.1, .inl hstep.2⟩

theorem Weathers.ofPool {pool : Pool} (hready : pool.Ready) (now : Nat) :
    (Session.ofPool pool now).Weathers where
  sound := .ofPool hready now
  named _ hmem := nomatch hmem

theorem followsDropping_append {session : Session} {events rest : List Event} :
    session.FollowsDropping (events ++ rest) ↔
      session.FollowsDropping events ∧ (session.run events).FollowsDropping rest := by
  induction events generalizing session with
  | nil => exact (iff_of_eq (true_and _)).symm
  | cons event events ih =>
      rw [List.cons_append, run_cons, FollowsDropping, FollowsDropping, ih, and_assoc, and_assoc]

end Session

end PagePool
