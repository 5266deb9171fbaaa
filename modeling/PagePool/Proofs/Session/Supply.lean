import PagePool.Proofs.Pool.Supply
import PagePool.Proofs.Session.Loans
import PagePool.Proofs.Session.Untouched

/-!
# A page is had exactly if it can be had

The request for a page whose lock nobody blocks is decided by the locks and the latches: what
transactions did before they ended never stands in its way.

A page in the cache could also be kept there by its flags, dirty or stolen. But only the owner of a
page sets them, and nobody gives a page back with a flag on it, so a page without an owner has none.
-/

namespace PagePool

open LockRecord Pool

namespace Pool

variable {pool after : Pool} {locks : LockManager} {request : Request}
  {result : Except Failure PageRef}

/-- A lock on a page that is not there pins none of the others. -/
theorem obtainable_grant (htable : locks.table = pool.locks.table.grant request) :
    Pool.Obtainable { pool with locks } request.page ↔ pool.Obtainable request.page := by
  cases hpeek : pool.cache.peek? request.page with
  | some ref => exact iff_of_true (.inl (hpeek ▸ rfl)) (.inl (hpeek ▸ rfl))
  | none =>
      have hpinned : ∀ {victim object}, pool.cache.peek? victim = some object →
          Pool.isPinned { pool with locks } victim = pool.isPinned victim := by
        intro victim object hvictim
        have hne : victim ≠ request.page := fun hsame => by
          rw [hsame, hpeek] at hvictim
          cases hvictim
        rw [Bool.eq_iff_iff, isPinned_iff, isPinned_iff, htable, LockTable.records_grant_of_ne hne]
      have hroom : Pool.MakesRoom { pool with locks } ↔ pool.MakesRoom := by
        refine or_congr Iff.rfl (exists_congr fun victim => exists_congr fun object => ?_)
        exact and_congr_right fun hvictim => by rw [hpinned hvictim]
      exact or_congr Iff.rfl (and_congr_right fun _ => hroom)

theorem Answers.of_grant (h : Answers { pool with locks } request.page result after)
    (htable : locks.table = pool.locks.table.grant request) :
    pool.Answers request.page result after where
  ok_iff := h.ok_iff.trans (obtainable_grant htable)
  gains := h.gains
  refused := h.refused

/-- The pool after a page has been read decides as the pool before. -/
theorem Answers.of_loaded {middle : Pool} {id : PageId} (h : middle.Answers id result after)
    (hread : pool.Untouched middle) (hstores : pool.Stores id) (hstores' : middle.Stores id)
    (hcache : middle.cache = pool.cache) (hframes : middle.frames = pool.frames)
    (hlocks : middle.locks = pool.locks) : pool.Answers id result after where
  ok_iff := by
    have hroom : middle.MakesRoom ↔ pool.MakesRoom := by
      simp only [MakesRoom, isPinned, hcache, hframes, hlocks]
    rw [h.ok_iff, Obtainable, Obtainable, hcache, hroom]
    simp only [hstores, hstores']
  gains ref hresult := hcache ▸ h.gains ref hresult
  refused failure hresult := by
    obtain ⟨hcache', hframes', hmedium, hkind⟩ := h.refused failure hresult
    exact ⟨hcache'.trans hcache, hframes'.trans hframes,
      fun ref => (hmedium ref).trans (hread.medium_eq ref), hread.pageSize_eq ▸ hkind⟩

end Pool

/-- The lock request of a task is evaluated, for the first time or once more. -/
def Event.Evaluates (task : Task) : Event → Prop
  | .evaluate id => id = task.id ∧ task.wait = .issued
  | .wake id _ _ => id = task.id ∧ ∃ budget woken, task.wait = .blocked budget woken
  | _ => False

namespace Session

/-- The event would set a deadline that the clock cannot tell. Only the first evaluation of a
request sets one. -/
def Overruns (session : Session) : Event → Prop
  | .evaluate _ => Budget.timeLimit ≤ session.now + Budget.patience session.pool.locks.policy
  | _ => False

/-- The request for a page has ended in a panic over its deadline. No lock, page or byte has
changed. -/
structure Overran (before : Session) (task : Task) (after : Session) : Prop where
  log_eq : after.log = .call task.id task.call ⟨.error (.fault .overflow), none⟩ :: before.log
  pool_eq : ∃ locks, locks.table = before.pool.locks.table ∧
    after.pool = { before.pool with locks }

/-- The request for a page has ended. -/
def Answered (before : Session) (task : Task) (page : PageId) (after : Session) : Prop :=
  ∃ result : Except Failure PageRef,
    after.log = .call task.id task.call ⟨result.map .page, none⟩ :: before.log ∧
      before.pool.Answers page result after.pool

/-- A gate holds up a page that is stored and not there, and nothing has changed. -/
structure HeldUp (before : Session) (task : Task) (page : PageId) (after : Session) : Prop where
  gated : after.pool.isGated page = true
  absent : before.pool.cache.peek? page = none
  stores : before.pool.Stores page
  cache_eq : after.pool.cache = before.pool.cache
  frames_eq : after.pool.frames = before.pool.frames
  medium_eq : ∀ ref, (after.pool.volume ref).medium = (before.pool.volume ref).medium
  reading : ∃ data, after.task? task.id = some { task with wait := .reading (.load page data) }

def Served (before : Session) (task : Task) (page : PageId) (after : Session) : Prop :=
  before.Answered task page after ∨ before.HeldUp task page after

variable {session : Session} {task : Task} {request : Request}

section Served

variable (h : session.pool.Tidy .strict)
  (hoperation : task.operation = { request, goal := .page })
include h hoperation

theorem answered_arrive (hstores : session.pool.Stores request.page) (data : Bytes) :
    session.Answered task request.page (session.arrive task (.load request.page data)) ∧
      (session.arrive task (.load request.page data)).pool.locks = session.pool.locks := by
  have hinstall := ends_install_exact h.nodup h.clean_of_free request.page data
  unfold Ends at hinstall
  unfold arrive resume
  rw [hoperation]
  simp only [bind, EStateM.bind]
  cases hrun : install (.load request.page data) session.pool with
  | ok ref pool =>
      rw [hrun] at hinstall
      obtain ⟨hroom, hgains, hlocks⟩ := hinstall
      refine ⟨⟨.ok ref, rfl, ?_, ?_, nofun⟩, hlocks⟩
      · exact iff_of_true ⟨ref, rfl⟩ (hroom.imp_right fun hroom => ⟨hstores, hroom⟩)
      · intro got hgot
        cases hgot
        exact hgains
  | error failure pool =>
      rw [hrun] at hinstall
      obtain ⟨rfl, habsent, hfull, rfl⟩ := hinstall
      refine ⟨⟨.error _, rfl, ?_, nofun, ?_⟩, rfl⟩
      · refine iff_of_false nofun ?_
        rintro (hthere | ⟨_, hroom⟩)
        · rw [habsent] at hthere
          cases hthere
        · exact hfull hroom
      · intro failure hfailure
        cases hfailure
        exact ⟨rfl, rfl, fun _ => rfl, .inl ⟨_, rfl, .inr rfl⟩⟩

theorem answered_granted (htask : session.task? task.id = some task) :
    session.Served task request.page (session.granted task) ∧
      (session.granted task).pool.locks = session.pool.locks := by
  have hfetch := ((h.ends_fetch_exact request.page).and
    (ends_fetch_untouched request.page session.pool)).and
      (h.ends_fetch request.tx (fun _ => False) request.page)
  unfold Ends at hfetch
  unfold Session.granted
  simp only [hoperation]
  split
  · next failure pool hrun =>
    rw [hrun] at hfetch
    obtain ⟨⟨⟨hlocks, habsent, hmissing, hcache, hframes, _, hkind⟩, huntouched⟩, _⟩ := hfetch
    refine ⟨.inl ⟨.error failure, ?_, ?_, nofun, ?_⟩, hlocks⟩
    · unfold resume
      rw [hoperation]
      rfl
    · refine iff_of_false nofun ?_
      rintro (hthere | ⟨hstores, _⟩)
      · rw [habsent] at hthere
        cases hthere
      · exact hmissing hstores
    · intro _ hfailure
      cases hfailure
      exact ⟨hcache, hframes, huntouched.medium_eq, hkind.imp_left fun ⟨error, hsame, hkind⟩ =>
        ⟨error, hsame, .inl hkind⟩⟩
  · next ref pool hrun =>
    rw [hrun] at hfetch
    obtain ⟨⟨⟨hlocks, hpeek, hgains⟩, _⟩, _⟩ := hfetch
    refine ⟨.inl ⟨.ok ref, ?_, ?_, ?_, nofun⟩, hlocks⟩
    · unfold resume
      rw [hoperation]
      rfl
    · exact iff_of_true ⟨ref, rfl⟩ (.inl (hpeek ▸ rfl))
    · intro got hgot
      cases hgot
      exact hgains
  · next page pool hrun =>
    rw [hrun] at hfetch
    obtain ⟨⟨⟨hlocks, habsent, hstores, ⟨data, rfl⟩, hcache, hframes⟩, hread⟩, hdrifts, _⟩ := hfetch
    split
    · next hgated =>
      refine ⟨.inr ⟨hgated, habsent, hstores, hcache, hframes, hread.medium_eq, data, ?_⟩, hlocks⟩
      exact @task?_setWait { session with pool } task htask _
    · have hstores' : pool.Stores request.page :=
        stores_iff.2 (hdrifts.isSome_stored rfl (stores_iff.1 hstores))
      obtain ⟨⟨result, hlog, hanswers⟩, hlocks'⟩ :=
        @answered_arrive { session with pool } task request hdrifts.tidy hoperation hstores' data
      exact ⟨.inl ⟨result, hlog, hanswers.of_loaded hread hstores hstores' hcache hframes hlocks⟩,
        hlocks'.trans hlocks⟩

theorem served_attempt (htask : session.task? task.id = some task)
    (hfree : session.pool.locks.table.blockers request = []) (budget : Budget) :
    session.Served task request.page (session.attempt task budget) ∧
      (session.attempt task budget).pool.locks.table = session.pool.locks.table.grant request := by
  have hrequest : task.operation.request = request := by rw [hoperation]
  have htable : (session.pool.locks.grant request).table =
      session.pool.locks.table.grant request := rfl
  have hdrifts : Drifts .strict request.tx (fun _ => False) session.pool
      { session.pool with locks := session.pool.locks.grant request } := .grant h hfree htable
  obtain ⟨hserved, hlocks⟩ := @answered_granted
    (session.withLocks (session.pool.locks.grant request)) task request hdrifts.tidy hoperation
    htask
  rw [attempt_of_free (hrequest ▸ hfree), hrequest]
  refine ⟨?_, congrArg LockManager.table hlocks⟩
  rcases hserved with ⟨result, hlog, hanswers⟩ | hheld
  · exact .inl ⟨result, hlog, hanswers.of_grant htable⟩
  · exact .inr ⟨hheld.gated, hheld.absent, hheld.stores, hheld.cache_eq, hheld.frames_eq,
      hheld.medium_eq, hheld.reading⟩

end Served

theorem Served.deliver {page : PageId} {after : Session} (h : session.Served task page after) :
    session.Served task page after.deliver := by
  rcases h with ⟨result, hlog, hanswers⟩ | hheld
  · exact .inl ⟨result, hlog, ⟨hanswers.ok_iff, hanswers.gains, hanswers.refused⟩⟩
  · obtain ⟨data, hreading⟩ := hheld.reading
    refine .inr ⟨hheld.gated, hheld.absent, hheld.stores, hheld.cache_eq, hheld.frames_eq,
      hheld.medium_eq, data, ?_⟩
    rw [task?_deliver, hreading]
    rfl

/-- A request is decided by the table of the locks, whatever else the lock manager keeps. -/
theorem Served.of_table {locks : LockManager} {now : Nat} {page : PageId} {after : Session}
    (h : Served { session with pool := { session.pool with locks }, now } task page after)
    (htable : locks.table = session.pool.locks.table) : session.Served task page after := by
  rcases h with ⟨result, hlog, hanswers⟩ | hheld
  · refine .inl ⟨result, hlog, hanswers.ok_iff.trans ?_, hanswers.gains, hanswers.refused⟩
    have hroom : Pool.MakesRoom { session.pool with locks } ↔ session.pool.MakesRoom := by
      simp only [MakesRoom, isPinned, htable]
    exact or_congr Iff.rfl (and_congr_right fun _ => hroom)
  · exact .inr ⟨hheld.gated, hheld.absent, hheld.stores, hheld.cache_eq, hheld.frames_eq,
      hheld.medium_eq, hheld.reading⟩

section Decided

variable (h : session.pool.Tidy .strict)
  (hoperation : task.operation = { request, goal := .page })
  (htask : session.task? task.id = some task)
include h hoperation htask

theorem served_evaluate (hissued : task.wait = .issued) {budget : Budget}
    (hbudget : Budget.start session.pool.locks.policy session.now = .ok budget)
    (hfree : session.pool.locks.table.blockers request = []) :
    session.Served task request.page (session.step (.evaluate task.id)) ∧
      (session.step (.evaluate task.id)).pool.locks.table =
        session.pool.locks.table.grant request := by
  have hdrifts : Drifts .strict request.tx (fun _ => False) session.pool
      { session.pool with locks := session.pool.locks.enter task.operation.request.tx } :=
    .locks_of_table h _ rfl
  have hstep : session.step (.evaluate task.id) = ((session.withLocks
      (session.pool.locks.enter task.operation.request.tx)).attempt task budget).deliver := by
    rw [← evaluate_of_budget hbudget, step_evaluate htask hissued]
  obtain ⟨hserved, htable⟩ := @served_attempt (session.withLocks _) task _ hdrifts.tidy
    hoperation htask hfree budget
  rw [hstep]
  exact ⟨(hserved.of_table rfl).deliver, htable⟩

omit h in
theorem overran_evaluate (hissued : task.wait = .issued)
    (hlate : session.Overruns (.evaluate task.id)) :
    session.Overran task (session.step (.evaluate task.id)) := by
  have hbudget : Budget.start session.pool.locks.policy session.now = .error (.fault .overflow) :=
    if_neg (Nat.not_lt.2 hlate)
  have hstep : session.step (.evaluate task.id) = ((session.withLocks
      (session.pool.locks.enter task.operation.request.tx)).close task.id task.call
        ⟨.error (.fault .overflow), none⟩).deliver := by
    rw [step_evaluate htask hissued, evaluate_of_failure hbudget, hoperation]
    rfl
  rw [hstep]
  exact ⟨rfl, { session.pool.locks.enter task.operation.request.tx with notified := [] }, rfl, rfl⟩

theorem served_wake {budget : Budget} {woken : Bool} (hblocked : task.wait = .blocked budget woken)
    (hfree : session.pool.locks.table.blockers request = []) (timedOut : Bool) (elapsed : Nat) :
    session.Served task request.page (session.step (.wake task.id timedOut elapsed)) ∧
      (session.step (.wake task.id timedOut elapsed)).pool.locks.table =
        session.pool.locks.table.grant request := by
  have hstep : session.step (.wake task.id timedOut elapsed) =
      (Session.attempt { session with now := session.now + elapsed } task
        (budget.afterWait timedOut)).deliver := by
    simp only [Session.step, react, htask, hblocked]
    rfl
  obtain ⟨hserved, htable⟩ := @served_attempt { session with now := session.now + elapsed }
    task _ h hoperation htask hfree (budget.afterWait timedOut)
  rw [hstep]
  exact ⟨(hserved.of_table rfl).deliver, htable⟩

theorem answered_load {data : Bytes} (hwait : task.wait = .reading (.load request.page data))
    (hstores : session.pool.Stores request.page) :
    session.Answered task request.page (session.step (.load task.id)) ∧
      (session.step (.load task.id)).pool.locks.table = session.pool.locks.table := by
  obtain ⟨hanswered, hlocks⟩ := answered_arrive h hoperation hstores data
  have hstep : session.step (.load task.id) =
      (session.arrive task (.load request.page data)).deliver := by
    simp only [Session.step, react, htask, hwait]
  have htable : (session.arrive task (.load request.page data)).pool.locks.table =
      session.pool.locks.table := congrArg LockManager.table hlocks
  rw [hstep]
  obtain ⟨result, hlog, hanswers⟩ := hanswered
  exact ⟨⟨result, hlog, hanswers.ok_iff, hanswers.gains, hanswers.refused⟩, htable⟩

end Decided

/-- **A page is had exactly if it can be had.** Where pages are written under handles that were got
for writing and by insertions and deletions, nothing is given back that has been changed, and
storage does not fail: a request for a page whose lock nobody blocks is granted the lock, and it
gets the page exactly if this is resident, or if it is stored and the cache has a free place or a
page that nobody has locked for writing or is writing. The page is in front then, and at most one
other has left. If it cannot be had, nothing else has changed. No page that is not locked for
writing is dirty or stolen. Where a gate holds the bytes up, the same is decided when they come. A
request whose deadline the clock cannot tell ends in a panic instead, and nothing has changed.

To be writing is to have the latch of the page, or to have panicked over it: a poisoned latch cannot
be read either, so the page stays. -/
theorem get_exact (h : session.Reachable .strict) {id : Nat} {tx : TxId} {page : PageId}
    {mode : LockMode} (htask : session.task? id = some task)
    (hcall : task.call = .get tx page mode) :
    (∀ event, Event.Evaluates task event →
      (session.Overruns event → session.Overran task (session.step event)) ∧
      (¬session.Overruns event → session.pool.locks.table.blockers { tx, page, mode } = [] →
        session.Served task page (session.step event) ∧
          (session.step event).pool.locks.table =
            session.pool.locks.table.grant { tx, page, mode })) ∧
    (∀ loaded, task.wait = .reading loaded →
      session.Answered task page (session.step (.load id)) ∧
        (session.step (.load id)).pool.locks.table = session.pool.locks.table) ∧
    ∀ other ref, session.pool.cache.peek? other = some ref → session.pool.isPinned other = false →
      (session.pool.page ref).dirty = none ∧ (session.pool.page ref).stolen = false := by
  obtain ⟨hmem, rfl⟩ := task?_mem htask
  have hsuits := h.tidy.suits task hmem
  have hoperation := (hcall ▸ hsuits.suits).eq_of_get
  have hpool := h.tidy.tidy
  refine ⟨fun event hevaluates => ?_, fun loaded hwait => ?_, fun _ _ => hpool.clean_of_free⟩
  · cases event with
    | evaluate number =>
        obtain ⟨rfl, hissued⟩ := hevaluates
        refine ⟨overran_evaluate hoperation htask hissued, fun hearly hfree => ?_⟩
        have hbudget : ∃ budget, Budget.start session.pool.locks.policy session.now = .ok budget :=
          ⟨_, if_pos (Nat.not_le.1 hearly)⟩
        exact served_evaluate hpool hoperation htask hissued hbudget.choose_spec hfree
    | wake number timedOut elapsed =>
        obtain ⟨rfl, budget, woken, hblocked⟩ := hevaluates
        exact ⟨False.elim, fun _ hfree =>
          served_wake hpool hoperation htask hblocked hfree timedOut elapsed⟩
    | start | load | command => exact hevaluates.elim
  · obtain ⟨hstored, data, _, rfl⟩ := hsuits.reads hwait
    rw [hoperation] at hstored hwait
    exact answered_load hpool hoperation htask hwait (stores_iff.2 (hstored rfl))

/-- The request of a reader in a pool whose only place is taken by a writer. -/
def crowdedOut : Task :=
  { id := 1, call := .get 2 ⟨0, 1⟩ .shared, wait := .issued
    operation := { request := ⟨2, ⟨0, 1⟩, .shared⟩, goal := .page } }

theorem get_exact_crowding :
    let session := (ofPool .onePlace 0).run (crowding.take 3)
    session.Served crowdedOut ⟨0, 1⟩ (session.step (.evaluate 1)) ∧
      (session.step (.evaluate 1)).pool.locks.table =
        session.pool.locks.table.grant ⟨2, ⟨0, 1⟩, .shared⟩ := by
  intro session
  have hfollows : (ofPool .onePlace 0).Follows (crowding.take 3) := by decide_cbv
  have hreachable : session.Reachable .strict := hfollows.reachable Pool.onePlace_ready .strict
  have htask : session.task? 1 = some crowdedOut := by decide_cbv
  have hearly : ¬session.Overruns (.evaluate 1) := by
    change ¬Budget.timeLimit ≤ session.now + Budget.patience session.pool.locks.policy
    decide_cbv
  exact ((get_exact hreachable htask rfl).1 (.evaluate 1) ⟨rfl, rfl⟩).2 hearly (by decide_cbv)

end Session

end PagePool
