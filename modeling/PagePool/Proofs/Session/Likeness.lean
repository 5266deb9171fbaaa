import PagePool.Proofs.Pool.Likeness
import PagePool.Proofs.Session.Step

/-!
# Sessions that look alike

Two sessions over pools that are alike have the same calls under way. The same event lets both go
on alike: what ends in one ends in the other with the same result, but that a page that is handed
out is the object of the one pool or of the other.
-/

namespace PagePool

open LockRecord Standing Pool

def Entry.result : Entry → Except Failure Answer
  | .call _ _ outcome => outcome.result
  | .command _ result => result

namespace Likeness

structure Tasks (like : Likeness) (pool pool' : Pool) (task task' : Task) : Prop where
  id_eq : task'.id = task.id
  call_eq : task'.call = task.call
  request_eq : task'.operation.request = task.operation.request
  goals : like.Goals pool pool' task.operation.goal task'.operation.goal
  wait_eq : task'.wait = task.wait

structure Handles (like : Likeness) (pool pool' : Pool) (entry entry' : Nat × Handle) : Prop where
  number_eq : entry'.1 = entry.1
  tx_eq : entry'.2.tx = entry.2.tx
  mode_eq : entry'.2.mode = entry.2.mode
  objects : like.Objects pool pool' entry.2.ref entry'.2.ref

/-- The same calls are under way, and the same pages have been handed out. -/
structure Rosters (like : Likeness) (pool pool' : Pool) (session session' : Session) : Prop where
  now_eq : session'.now = session.now
  tasks : List.Forall₂ (like.Tasks pool pool') session.tasks session'.tasks
  handles : List.Forall₂ (like.Handles pool pool') session.handles session'.handles

structure Sessions (like : Likeness) (session session' : Session) : Prop where
  pools : like.Alike session.pool session'.pool
  rosters : like.Rosters session.pool session'.pool session session'

inductive Entries (like : Likeness) (pool pool' : Pool) : Entry → Entry → Prop where
  | call {id : Nat} {call : Call} {outcome outcome' : Outcome}
      (houtcome : like.Outcomes pool pool' outcome outcome') :
      like.Entries pool pool' (.call id call outcome) (.call id call outcome')
  | read {handle : Nat} {result result' : Except Failure Answer}
      (hresult : like.Literal → result' = result) :
      like.Entries pool pool' (.command (.read handle) result) (.command (.read handle) result')
  | command {command : Command} {result : Except Failure Answer} :
      like.Entries pool pool' (.command command result) (.command command result)

def Excuses (like : Likeness) (entry : Entry) : Prop :=
  ∃ failure, entry.result = .error failure ∧ like.Excused failure

/-- Two sessions have gone on alike, or one of them with a failure that is excused. -/
def Advance (like : Likeness) (before before' after after' : Session) : Prop :=
  ∃ news news', after.log = news ++ before.log ∧ after'.log = news' ++ before'.log ∧
    ((like.Sessions after after' ∧ List.Forall₂ (like.Entries after.pool after'.pool) news news') ∨
      ∃ entry ∈ news ++ news', like.Excuses entry)

variable {like : Likeness} {pool pool' after after' : Pool} {session session' : Session}
  {task task' : Task} {id : Nat} {call : Call} {page : PageId}

theorem grows_withLocks (pool : Pool) (locks : LockManager) : pool.Grows { pool with locks } :=
  ⟨Nat.le_refl _, fun _ _ => rfl⟩

theorem Tasks.grows (h : like.Tasks pool pool' task task') (hgrows : pool.Grows after)
    (hgrows' : pool'.Grows after') : like.Tasks after after' task task' :=
  ⟨h.id_eq, h.call_eq, h.request_eq, h.goals.grows hgrows hgrows', h.wait_eq⟩

theorem Tasks.withLocks (h : like.Tasks pool pool' task task') (locks locks' : LockManager) :
    like.Tasks { pool with locks } { pool' with locks := locks' } task task' :=
  h.grows (grows_withLocks pool locks) (grows_withLocks pool' locks')

theorem Handles.grows {entry entry' : Nat × Handle} (h : like.Handles pool pool' entry entry')
    (hgrows : pool.Grows after) (hgrows' : pool'.Grows after') :
    like.Handles after after' entry entry' :=
  ⟨h.number_eq, h.tx_eq, h.mode_eq, h.objects.grows hgrows hgrows'⟩

theorem Rosters.grows (h : like.Rosters pool pool' session session') (hgrows : pool.Grows after)
    (hgrows' : pool'.Grows after') : like.Rosters after after' session session' where
  now_eq := h.now_eq
  tasks := h.tasks.imp fun _ _ htask => htask.grows hgrows hgrows'
  handles := h.handles.imp fun _ _ hhandle => hhandle.grows hgrows hgrows'

/-- The pools go on, and the calls under way stay. -/
theorem Sessions.withPools (h : like.Sessions session session') (halike : like.Alike after after')
    (hgrows : session.pool.Grows after) (hgrows' : session'.pool.Grows after') :
    like.Sessions { session with pool := after } { session' with pool := after' } where
  pools := halike
  rosters :=
    have hrosters := h.rosters.grows hgrows hgrows'
    ⟨hrosters.now_eq, hrosters.tasks, hrosters.handles⟩

theorem Sessions.keeps {tx : TxId} (h : like.Sessions session session')
    (hkeeps : like.Keeps tx session.pool session'.pool after after') :
    like.Sessions { session with pool := after } { session' with pool := after' } :=
  h.withPools hkeeps.alike hkeeps.left.grows hkeeps.right.grows

theorem rel_handOut (h : like.Rosters pool pool' session session') {outcome outcome' : Outcome}
    (houtcome : like.Outcomes pool pool' outcome outcome') (id : Nat) (call : Call) :
    List.Forall₂ (like.Handles pool pool') (session.handOut id call outcome)
      (session'.handOut id call outcome') := by
  obtain ⟨result, tuple⟩ := outcome
  obtain ⟨result', tuple'⟩ := outcome'
  obtain ⟨hresult, _⟩ := houtcome
  cases hresult with
  | same hplain =>
      unfold Session.handOut
      split
      · next ref heq => exact absurd heq (hplain ref)
      · exact h.handles
  | page hobjects hdata =>
      cases call with
      | get tx page mode => exact .cons ⟨rfl, rfl, rfl, hobjects⟩ h.handles
      | _ => exact h.handles

theorem rel_ended (h : like.Rosters pool pool' session session') (id : Nat) :
    List.Forall₂ (like.Tasks pool pool') (session.tasks.filter fun task => task.id ≠ id)
      (session'.tasks.filter fun task => task.id ≠ id) := by
  refine List.rel_filter (fun task task' htask => ?_) h.tasks
  simp only [htask.id_eq]

theorem advance_close (h : like.Sessions session session') {outcome outcome' : Outcome}
    (houtcome : like.Outcomes session.pool session'.pool outcome outcome') (id : Nat) (call : Call) :
    like.Advance session session' (session.close id call outcome)
      (session'.close id call outcome') := by
  refine ⟨[_], [_], rfl, rfl, .inl ⟨⟨h.pools, h.rosters.now_eq, ?_, ?_⟩, .cons (.call houtcome) .nil⟩⟩
  · exact rel_ended h.rosters id
  · exact rel_handOut h.rosters houtcome id call

section Going

variable (hlaw : like.Lawful) (h : like.Sessions session session')
include hlaw h

/-- The locks of both pools change alike. -/
theorem sessions_withLocks {deed : Deed} {tx : TxId} (change : LockManager → LockManager)
    (hchange : ∀ {pool : Pool}, pool.Coherent → pool.locks = session.pool.locks →
      Evolves deed tx pool { pool with locks := change pool.locks }) :
    like.Sessions (session.withLocks (change session.pool.locks))
      (session'.withLocks (change session'.pool.locks)) := by
  have hleft := hchange h.pools.left rfl
  have hright := hchange h.pools.right h.pools.locks_eq
  refine h.withPools ⟨hleft.coherent h.pools.left, hright.coherent h.pools.right, ?_, ?_⟩ hleft.grows
    hright.grows
  · rw [h.pools.locks_eq]
    exact congrArg (View.withLocks · (change session.pool.locks)) h.pools.view_eq
  · rw [h.pools.locks_eq]
    exact hlaw.withLocks h.pools _

theorem advance_suspend {request : Request} {goal goal' : Goal}
    (hgoal : like.Goals session.pool session'.pool goal goal') (id : Nat) (call : Call) :
    like.Advance session session' (session.suspend id call ⟨request, goal⟩)
      (session'.suspend id call ⟨request, goal'⟩) := by
  have hevolves : ∀ {pool : Pool}, pool.Coherent → pool.locks = session.pool.locks →
      Evolves .access 0 pool { pool with locks := pool.locks.issue request.tx } :=
    fun hpool _ => .locks_of_table hpool.toSound _ rfl
  have hlocks := sessions_withLocks hlaw h (·.issue request.tx) hevolves
  refine ⟨[], [], rfl, rfl, .inl ⟨⟨hlocks.pools, hlocks.rosters.now_eq, ?_, hlocks.rosters.handles⟩,
    .nil⟩⟩
  exact List.rel_append (rel_ended hlocks.rosters id) (.cons
    ⟨rfl, rfl, rfl, hgoal.grows (grows_withLocks ..) (grows_withLocks ..), rfl⟩ .nil)

omit hlaw h in
theorem log_after (session : Session) (id : Nat) (call : Call) (tuple : Option Tuple)
    (result : EStateM.Result Failure Pool Step) :
    ∃ news, (session.after id call tuple result).log = news ++ session.log := by
  cases result with
  | error failure pool => exact ⟨[_], rfl⟩
  | ok step pool =>
      cases step with
      | ask operation => exact ⟨[], rfl⟩
      | done outcome => exact ⟨[_], rfl⟩

omit hlaw h in
theorem advance_excused (session session' : Session) {failure : Failure}
    (hfailure : like.Excused failure) (id : Nat) (call : Call) (tuple : Option Tuple)
    {result result' : EStateM.Result Failure Pool Step}
    (hresult : (∃ pool, result = .error failure pool) ∨ ∃ pool, result' = .error failure pool) :
    like.Advance session session' (session.after id call tuple result)
      (session'.after id call tuple result') := by
  have hexcuses : like.Excuses (.call id call ⟨.error failure, tuple⟩) := ⟨failure, rfl, hfailure⟩
  obtain ⟨news, hnews⟩ := log_after session id call tuple result
  obtain ⟨news', hnews'⟩ := log_after session' id call tuple result'
  rcases hresult with ⟨pool, rfl⟩ | ⟨pool, rfl⟩
  · exact ⟨[_], news', rfl, hnews', .inr ⟨_, List.mem_append_left _ List.mem_cons_self, hexcuses⟩⟩
  · exact ⟨news, [_], hnews, rfl, .inr ⟨_, List.mem_append_right _ List.mem_cons_self, hexcuses⟩⟩

/-- A stretch of a call that goes alike on both pools lets both sessions go on alike. -/
theorem advance_after {tx : TxId} {step step' : Action Step}
    (hgoes : like.Goes tx session.pool session'.pool step step' fun step after step' after' =>
      like.Steps after after' step step') (id : Nat) (call : Call) (tuple : Option Tuple) :
    like.Advance session session' (session.after id call tuple (step session.pool))
      (session'.after id call tuple (step' session'.pool)) := by
  unfold Goes Together at hgoes
  cases hrun : step session.pool <;> cases hrun' : step' session'.pool <;> rw [hrun, hrun'] at hgoes
  case ok.ok =>
    obtain ⟨hkeeps, hsteps⟩ := hgoes
    have hsessions := h.keeps hkeeps
    cases hsteps with
    | ask hgoal => exact advance_suspend hlaw hsessions hgoal id call
    | done houtcome => exact advance_close hsessions houtcome id call
  case ok.error => exact advance_excused _ _ hgoes id call tuple (.inr ⟨_, rfl⟩)
  case error.ok => exact advance_excused _ _ hgoes id call tuple (.inl ⟨_, rfl⟩)
  case error.error =>
    rcases hgoes with ⟨rfl, hkeeps⟩ | hfailure | hfailure
    · exact advance_close (h.keeps hkeeps) ⟨.same (by simp), rfl⟩ id call
    · exact advance_excused _ _ hfailure id call tuple (.inl ⟨_, rfl⟩)
    · exact advance_excused _ _ hfailure id call tuple (.inr ⟨_, rfl⟩)

theorem advance_resume (htask : like.Tasks session.pool session'.pool task task') {tx : TxId}
    {step step' : Action Step}
    (hgoes : like.Goes tx session.pool session'.pool step step' fun step after step' after' =>
      like.Steps after after' step step') :
    like.Advance session session' (session.resume task (step session.pool))
      (session'.resume task' (step' session'.pool)) := by
  have htuple : task'.operation.goal.inserted? = task.operation.goal.inserted? := by
    have hgoal := htask.goals
    generalize task.operation.goal = goal at hgoal ⊢
    generalize task'.operation.goal = goal' at hgoal ⊢
    cases hgoal <;> rfl
  unfold Session.resume
  rw [htask.id_eq, htask.call_eq, htuple]
  exact advance_after hlaw h hgoes ..

omit hlaw in
theorem advance_setWait (htask : like.Tasks session.pool session'.pool task task') (wait : Wait) :
    like.Advance session session' (session.setWait task wait) (session'.setWait task' wait) := by
  refine ⟨[], [], rfl, rfl, .inl ⟨⟨h.pools, h.rosters.now_eq, ?_, h.rosters.handles⟩, .nil⟩⟩
  refine List.rel_map (fun other other' hother => ?_) h.rosters.tasks
  rw [hother.id_eq, htask.id_eq]
  split
  · exact ⟨rfl, htask.call_eq, htask.request_eq, htask.goals, rfl⟩
  · exact hother

end Going

theorem resume_withPool (session : Session) (pool : Pool) (task : Task)
    (result : EStateM.Result Failure Pool Step) :
    Session.resume { session with pool } task result = session.resume task result := by
  cases result with
  | error failure pool => rfl
  | ok step pool => cases step <;> rfl

section Fetched

variable {fetched : Fetched} (hgoal : task.operation.goal ≠ .lock)
  (hpage : task.operation.request.page = page)
  (hrun : fetch page session.pool = .ok fetched after) (hprovides : after.Provides page fetched)
include hgoal hpage hrun hprovides

/-- A read behind a closed gate is held up with its bytes. -/
theorem granted_of_gated (hgated : after.isGated page = true)
    (habsent : after.cache.peek? page = none) :
    session.granted task = { session with pool := after }.setWait task
      (.reading (Page.load page (after.content page))) := by
  obtain ⟨_, rfl⟩ := hprovides.stored?_eq habsent
  have hgate : after.isGated (Page.load page (after.content page)).id = true := hgated
  unfold Session.granted
  split
  · next heq => exact absurd heq hgoal
  · simp only [hpage, hrun, hgate, if_true]

/-- Otherwise a task goes on with its page as if it had come from storage. -/
theorem granted_of_open (hcache : after.cache = (session.pool.used page).cache)
    (hopen : after.isGated page = true → after.cache.peek? page ≠ none) :
    session.granted task = { session with pool := after }.arrive task
      (Page.load page (after.content page)) := by
  unfold Session.granted
  split
  · next heq => exact absurd heq hgoal
  cases hpeek : after.cache.peek? page with
  | some ref =>
      have hfetched : fetched = .resident ref := by
        cases fetched with
        | resident found =>
            have hfound : after.cache.peek? page = some found := hprovides
            rw [Option.some.inj (hpeek.symm.trans hfound)]
        | loaded page => cases hpeek.symm.trans hprovides.1
      -- the fetch has put the page in front, so that it comes again changes nothing
      have hinstall : install (Page.load page (after.content page)) after = .ok ref after := by
        rw [install_of_cached hpeek]
        exact congrArg (EStateM.Result.ok ref) (used_eq_self hcache hpeek)
      simp only [hpage, hrun, hfetched, Session.arrive, bind, EStateM.bind, hinstall]
      exact (resume_withPool session after task _).symm
  | none =>
      obtain ⟨_, rfl⟩ := hprovides.stored?_eq hpeek
      have hgate : after.isGated (Page.load page (after.content page)).id = false :=
        Bool.eq_false_iff.2 fun hgated => hopen hgated hpeek
      simp only [hpage, hrun, hgate, Bool.false_eq_true, if_false]

end Fetched

theorem waits_withLocks {operation : Operation} (hpool : pool.Coherent) {locks : LockManager}
    (htable : locks.table = pool.locks.table) (h : operation.Waits pool call) :
    operation.Waits { pool with locks } call where
  toSound :=
    have hevolves : Evolves .access 0 pool { pool with locks } :=
      .locks_of_table hpool.toSound locks htable
    h.toSound.evolves hevolves hpool
  fresh hdrops hheld := h.fresh hdrops (htable ▸ hheld)

section Tasks

variable (hlaw : like.Lawful) (h : like.Sessions session session')
  (htask : like.Tasks session.pool session'.pool task task')
  (hroom : session.pool.HasRoomFor task.call)
include hlaw h htask hroom

theorem advance_arrive (hpage : task.operation.request.page = page)
    (hop : task.operation.Entitled session.pool task.call)
    (hop' : task'.operation.Entitled session'.pool task'.call) {data : Bytes}
    (hstored : session.pool.cache.peek? page = none → session.pool.stored? page = some data)
    (hstored' : session'.pool.cache.peek? page = none → session'.pool.stored? page = some data) :
    like.Advance session session' (session.arrive task (Page.load page data))
      (session'.arrive task' (Page.load page data)) := by
  rw [htask.call_eq] at hop'
  exact advance_resume hlaw h htask (goes_arrive hlaw h.pools hop hop' htask.request_eq htask.goals
    hpage hroom hstored hstored')

/-- Both tasks find their page, and both are held up or neither is. -/
theorem advance_fetched (hgoal : task.operation.goal ≠ .lock)
    (hpage : task.operation.request.page = page)
    (hop : task.operation.Entitled session.pool task.call)
    (hop' : task'.operation.Entitled session'.pool task'.call) {fetched fetched' : Fetched}
    (hrun : fetch page session.pool = .ok fetched after)
    (hrun' : fetch page session'.pool = .ok fetched' after')
    (hkeeps : like.Keeps task.call.tx session.pool session'.pool after after')
    (hview : after.view = session.pool.view) (hprovides : after.Provides page fetched)
    (hprovides' : after'.Provides page fetched')
    (hcache : after.cache = (session.pool.used page).cache)
    (hcache' : after'.cache = (session'.pool.used page).cache) :
    like.Advance session session' (session.granted task) (session'.granted task') := by
  have hgoal' : task'.operation.goal ≠ .lock := fun heq => hgoal (htask.goals.eq_lock_iff.1 heq)
  have hpage' : task'.operation.request.page = page := by rw [htask.request_eq, hpage]
  have hsessions := h.keeps hkeeps
  have htask' := htask.grows hkeeps.left.grows hkeeps.right.grows
  have hcontent := hkeeps.alike.content_eq page
  have hgate := hkeeps.alike.isGated_eq page
  have hview' : after'.view = session'.pool.view := by
    rw [hkeeps.alike.view_eq, hview, h.pools.view_eq]
  have habsent : after.isGated page = true →
      (after'.cache.peek? page = none ↔ after.cache.peek? page = none) := fun hgated => by
    rw [← Option.not_isSome_iff_eq_none, ← Option.not_isSome_iff_eq_none,
      hlaw.gated hkeeps.alike hgated]
  by_cases hheld : after.isGated page = true ∧ after.cache.peek? page = none
  · rw [granted_of_gated hgoal hpage hrun hprovides hheld.1 hheld.2,
      granted_of_gated hgoal' hpage' hrun' hprovides' (hgate.trans hheld.1)
        ((habsent hheld.1).2 hheld.2), hcontent]
    exact advance_setWait hsessions htask' _
  · have hopen : after.isGated page = true → after.cache.peek? page ≠ none := fun hgated hnone =>
      hheld ⟨hgated, hnone⟩
    have hopen' : after'.isGated page = true → after'.cache.peek? page ≠ none := fun hgated hnone =>
      hopen (hgate.symm.trans hgated) ((habsent (hgate.symm.trans hgated)).1 hnone)
    rw [granted_of_open hgoal hpage hrun hprovides hcache hopen,
      granted_of_open hgoal' hpage' hrun' hprovides' hcache' hopen', hcontent]
    refine advance_arrive hlaw hsessions htask' (hasRoomFor_of_view hview hroom)
      hpage (hop.of_locks_eq hkeeps.left h.pools.left (congrArg View.locks hview))
      (hop'.of_locks_eq hkeeps.right h.pools.right (congrArg View.locks hview'))
      (fun hnone => (hprovides.stored?_eq hnone).1) fun hnone => ?_
    rw [← hcontent]
    exact (hprovides'.stored?_eq hnone).1

/-- A task that has got its lock goes on alike in both sessions. -/
theorem advance_granted (hop : task.operation.Entitled session.pool task.call)
    (hop' : task'.operation.Entitled session'.pool task'.call) :
    like.Advance session session' (session.granted task) (session'.granted task') := by
  by_cases hlock : task.operation.goal = .lock
  · have hlock' := htask.goals.eq_lock_iff.2 hlock
    have hanswer : like.Goes 0 session.pool session'.pool (pure (Step.answer .unit))
        (pure (Step.answer .unit)) fun step after step' after' => like.Steps after after' step step' :=
      goes_pure h.pools (.done (.answer (by simp) none))
    simp only [Session.granted, hlock, hlock']
    exact advance_resume hlaw h htask hanswer
  · have hlock' : task'.operation.goal ≠ .lock := fun heq => hlock (htask.goals.eq_lock_iff.1 heq)
    have hfetch := together_fetch hlaw h.pools task.call.tx task.operation.request.page
    unfold Together at hfetch
    cases hrun : fetch task.operation.request.page session.pool <;>
      cases hrun' : fetch task.operation.request.page session'.pool <;>
      rw [hrun, hrun'] at hfetch
    case ok.ok =>
      obtain ⟨hkeeps, hview, hprovides, hprovides', hcache, hcache'⟩ := hfetch
      exact advance_fetched hlaw h htask hroom hlock rfl hop hop' hrun hrun' hkeeps hview hprovides
        hprovides' hcache hcache'
    case error.error failure after failure' after' =>
      obtain ⟨rfl, hkeeps⟩ := hfetch.resolve_right (by simp)
      have hfails : like.Goes task.call.tx session.pool session'.pool
          (fun _ => .error failure' after) (fun _ => .error failure' after')
          fun step after step' after' => like.Steps after after' step step' := .inl ⟨rfl, hkeeps⟩
      rw [← htask.request_eq] at hrun'
      have hgranted : ∀ {session : Session} {task : Task} {after},
          task.operation.goal ≠ .lock →
          fetch task.operation.request.page session.pool = .error failure' after →
          session.granted task = session.resume task (.error failure' after) := by
        intro session task after hgoal hrun
        unfold Session.granted
        split
        · next heq => exact absurd heq hgoal
        · simp only [hrun]
      rw [hgranted hlock hrun, hgranted hlock' hrun']
      exact advance_resume hlaw h htask hfails
    case ok.error => exact hfetch.elim
    case error.ok => exact hfetch.elim

/-- A lock request is decided alike in both sessions. -/
theorem advance_attempt (hwaits : task.operation.Waits session.pool task.call)
    (hwaits' : task'.operation.Waits session'.pool task'.call) (budget : Budget) :
    like.Advance session session' (session.attempt task budget) (session'.attempt task' budget) := by
  have hcases := session.pool.locks.attempt_cases task.operation.request budget session.now
  have hrequest := htask.request_eq
  have hlocks := h.pools.locks_eq
  unfold Session.attempt
  rw [hrequest, hlocks, h.rosters.now_eq]
  cases hattempt : session.pool.locks.attempt task.operation.request budget session.now with
  | mk ruling locks =>
      rw [hattempt] at hcases
      have hmiddle : ∀ {deed tx}, (∀ {pool : Pool}, pool.Coherent →
          pool.locks = session.pool.locks → Evolves deed tx pool { pool with locks }) →
          like.Sessions (session.withLocks locks) (session'.withLocks locks) ∧
          like.Tasks { session.pool with locks } { session'.pool with locks } task task' :=
        fun hevolves => ⟨sessions_withLocks hlaw h (fun _ => locks) hevolves,
          htask.withLocks ..⟩
      have hunmoved : locks.table = session.pool.locks.table → ∀ {pool : Pool}, pool.Coherent →
          pool.locks = session.pool.locks → Evolves .access 0 pool { pool with locks } :=
        fun htable _ hpool heq => .locks_of_table hpool.toSound locks (heq ▸ htable)
      cases ruling with
      | granted =>
          obtain ⟨_, hfree, htable⟩ := hcases.resolve_right fun hrefused => hrefused.1 rfl
          have hevolves : ∀ {pool : Pool}, pool.Coherent → pool.locks = session.pool.locks →
              Evolves .access task.operation.request.tx pool { pool with locks } :=
            fun hpool heq => evolves_grant hpool (heq ▸ hfree) (heq ▸ htable)
          obtain ⟨hsessions, htask⟩ := hmiddle hevolves
          have hentitled' := hwaits'.granted h.pools.right (by rw [hlocks, hrequest]; exact hfree)
            (by rw [hlocks, hrequest]; exact htable)
          exact advance_granted hlaw hsessions htask
            ((hevolves h.pools.left rfl).hasRoomFor h.pools.left hroom)
            (hwaits.granted h.pools.left hfree htable) hentitled'
      | wait =>
          obtain ⟨_, htable⟩ := hcases.resolve_left fun hgranted => by cases hgranted.1
          obtain ⟨hsessions, htask⟩ := hmiddle (hunmoved htable)
          exact advance_setWait hsessions htask _
      | refused error =>
          obtain ⟨_, htable⟩ := hcases.resolve_left fun hgranted => by cases hgranted.1
          obtain ⟨hsessions, htask⟩ := hmiddle (hunmoved htable)
          have hfails : like.Goes 0 { session.pool with locks } { session'.pool with locks }
              (throw (.error error)) (throw (.error error)) fun step after step' after' =>
                like.Steps after after' step step' := goes_throw hsessions.pools _
          exact advance_resume hlaw hsessions htask hfails

theorem advance_evaluate (hwaits : task.operation.Waits session.pool task.call)
    (hwaits' : task'.operation.Waits session'.pool task'.call) :
    like.Advance session session' (session.evaluate task) (session'.evaluate task') := by
  have hevolves : ∀ {pool : Pool}, pool.Coherent → pool.locks = session.pool.locks →
      Evolves .access 0 pool { pool with locks := pool.locks.enter task.operation.request.tx } :=
    fun hpool _ => .locks_of_table hpool.toSound _ rfl
  have hsessions := sessions_withLocks hlaw h (·.enter task.operation.request.tx) hevolves
  have htask' := htask.withLocks (session.pool.locks.enter task.operation.request.tx)
    (session'.pool.locks.enter task.operation.request.tx)
  unfold Session.evaluate
  rw [htask.request_eq]
  dsimp only
  rw [hsessions.pools.locks_eq, hsessions.rosters.now_eq]
  cases Budget.start _ _ with
  | ok budget =>
      exact advance_attempt hlaw hsessions htask'
        ((hevolves h.pools.left rfl).hasRoomFor h.pools.left hroom)
        (waits_withLocks h.pools.left rfl hwaits) (waits_withLocks h.pools.right rfl hwaits') budget
  | error failure =>
      have hfails : like.Goes 0 _ _ (throw failure) (throw failure) fun step after step' after' =>
        like.Steps after after' step step' := goes_throw hsessions.pools failure
      exact advance_resume hlaw hsessions htask' hfails

/-- A wait ends alike in both sessions. -/
theorem advance_wake (hwaits : task.operation.Waits session.pool task.call)
    (hwaits' : task'.operation.Waits session'.pool task'.call) (budget : Budget) (timedOut : Bool)
    (elapsed : Nat) :
    like.Advance session session' (session.wake task budget timedOut elapsed)
      (session'.wake task' budget timedOut elapsed) := by
  have hlater : like.Sessions { session with now := session.now + elapsed }
      { session' with now := session'.now + elapsed } :=
    ⟨h.pools, by rw [h.rosters.now_eq], h.rosters.tasks, h.rosters.handles⟩
  exact advance_attempt hlaw hlater htask hroom hwaits hwaits' _

end Tasks

section Deliver

theorem Entries.withLocks {entry entry' : Entry} (h : like.Entries pool pool' entry entry')
    (locks locks' : LockManager) :
    like.Entries { pool with locks } { pool' with locks := locks' } entry entry' := by
  cases h with
  | call houtcome =>
      refine .call ⟨?_, houtcome.tuple_eq⟩
      obtain ⟨hresult, _⟩ := houtcome
      generalize Outcome.result _ = result at hresult ⊢
      generalize Outcome.result _ = result' at hresult ⊢
      cases hresult with
      | same hplain => exact .same hplain
      | page hobjects hdata =>
          exact .page (hobjects.grows (grows_withLocks ..) (grows_withLocks ..)) hdata
  | read hresult => exact .read hresult
  | command => exact .command

variable (hlaw : like.Lawful)
include hlaw

theorem Sessions.deliver (h : like.Sessions session session') :
    like.Sessions session.deliver session'.deliver := by
  have hevolves : ∀ {pool : Pool}, pool.Coherent → pool.locks = session.pool.locks →
      Evolves .access 0 pool { pool with locks := { pool.locks with notified := [] } } :=
    fun hpool _ => .locks_of_table hpool.toSound _ rfl
  have hlocks := sessions_withLocks hlaw h ({ · with notified := [] }) hevolves
  refine ⟨hlocks.pools, hlocks.rosters.now_eq, ?_, hlocks.rosters.handles⟩
  refine List.rel_map (fun task task' htask => ?_) hlocks.rosters.tasks
  rw [h.pools.locks_eq]
  unfold Session.notifyTask
  rw [htask.wait_eq, htask.request_eq]
  split
  · exact ⟨htask.id_eq, htask.call_eq, htask.request_eq, htask.goals, rfl⟩
  · exact htask

theorem Advance.deliver {last last' : Session} (h : like.Advance session session' last last') :
    like.Advance session session' last.deliver last'.deliver := by
  obtain ⟨news, news', hlog, hlog', hnews⟩ := h
  refine ⟨news, news', hlog, hlog', hnews.imp_left fun hsame => ⟨hsame.1.deliver hlaw, ?_⟩⟩
  exact hsame.2.imp fun _ _ hentry => hentry.withLocks ..

end Deliver

section Execute

theorem advance_execute {command : Command}
    (hgoes : Together like.Excused (session.action command) session.pool (session'.action command)
      session'.pool
      (fun answer after answer' after' =>
        like.Sessions { session with pool := after } { session' with pool := after' } ∧
        like.Entries after after' (.command command (.ok answer)) (.command command (.ok answer')))
      fun after after' =>
        like.Sessions { session with pool := after } { session' with pool := after' }) :
    like.Advance session session' (session.execute command) (session'.execute command) := by
  unfold Together at hgoes
  unfold Session.execute
  cases hrun : session.action command session.pool <;>
    cases hrun' : session'.action command session'.pool <;> rw [hrun, hrun'] at hgoes
  case ok.ok =>
    obtain ⟨⟨hpools, hrosters⟩, hentry⟩ := hgoes
    exact ⟨[_], [_], rfl, rfl, .inl ⟨⟨hpools, hrosters.now_eq, hrosters.tasks, hrosters.handles⟩,
      .cons hentry .nil⟩⟩
  case ok.error =>
    exact ⟨[_], [_], rfl, rfl, .inr ⟨_, List.mem_append_right _ List.mem_cons_self, _, rfl, hgoes⟩⟩
  case error.ok =>
    exact ⟨[_], [_], rfl, rfl, .inr ⟨_, List.mem_append_left _ List.mem_cons_self, _, rfl, hgoes⟩⟩
  case error.error =>
    rcases hgoes with ⟨rfl, hpools, hrosters⟩ | hfailure | hfailure
    · exact ⟨[_], [_], rfl, rfl, .inl ⟨⟨hpools, hrosters.now_eq, hrosters.tasks, hrosters.handles⟩,
        .cons .command .nil⟩⟩
    · exact ⟨[_], [_], rfl, rfl,
        .inr ⟨_, List.mem_append_left _ List.mem_cons_self, _, rfl, hfailure⟩⟩
    · exact ⟨[_], [_], rfl, rfl,
        .inr ⟨_, List.mem_append_right _ List.mem_cons_self, _, rfl, hfailure⟩⟩

/-- What is asked for by its number is found in both lists, or in neither. -/
theorem rel_find? {Item Item' : Type} {rel : Item → Item' → Prop} {items : List Item}
    {items' : List Item'} (h : List.Forall₂ rel items items') {asked : Item → Bool}
    {asked' : Item' → Bool} (hasked : ∀ item item', rel item item' → asked' item' = asked item) :
    (items.find? asked = none ∧ items'.find? asked' = none) ∨
      ∃ item item', items.find? asked = some item ∧ items'.find? asked' = some item' ∧
        rel item item' := by
  induction h with
  | nil => exact .inl ⟨rfl, rfl⟩
  | @cons item item' rest rest' hitem _ ih =>
      cases hfound : asked item with
      | true =>
          refine .inr ⟨item, item', List.find?_cons_of_pos hfound, ?_, hitem⟩
          exact List.find?_cons_of_pos ((hasked _ _ hitem).trans hfound)
      | false =>
          have hfound' : asked' item' = false := (hasked _ _ hitem).trans hfound
          rw [List.find?_cons_of_neg (by simp [hfound]), List.find?_cons_of_neg (by simp [hfound'])]
          exact ih

theorem Rosters.handle? (h : like.Rosters pool pool' session session') (number : Nat) :
    (session.handle? number = none ∧ session'.handle? number = none) ∨
      ∃ handle handle', session.handle? number = some handle ∧
        session'.handle? number = some handle' ∧ like.Objects pool pool' handle.ref handle'.ref := by
  unfold Session.handle?
  have hasked : ∀ entry entry' : Nat × Handle, like.Handles pool pool' entry entry' →
      decide (entry'.1 = number) = decide (entry.1 = number) := fun entry entry' hentry => by
    rw [hentry.number_eq]
  rcases rel_find? h.handles hasked with
    ⟨hnone, hnone'⟩ | ⟨entry, entry', hsome, hsome', hentry⟩
  · rw [hnone, hnone']
    exact .inl ⟨rfl, rfl⟩
  · rw [hsome, hsome']
    exact .inr ⟨entry.2, entry'.2, rfl, rfl, hentry.objects⟩

theorem Rosters.task? (h : like.Rosters pool pool' session session') (id : Nat) :
    (session.task? id = none ∧ session'.task? id = none) ∨
      ∃ task task', session.task? id = some task ∧ session'.task? id = some task' ∧
        like.Tasks pool pool' task task' :=
  rel_find? h.tasks fun task task' htask => by rw [htask.id_eq]

section Commands

variable (hlaw : like.Lawful) (h : like.Sessions session session')
include hlaw h

theorem advance_read (handle : Nat) :
    like.Advance session session' (session.execute (.read handle))
      (session'.execute (.read handle)) := by
  apply advance_execute
  unfold Together
  rw [session.action_read, session'.action_read]
  refine ⟨h, .read fun hliteral => ?_⟩
  rcases h.rosters.handle? handle with ⟨hnone, hnone'⟩ | ⟨entry, entry', hsome, hsome', hobjects⟩
  · rw [hnone, hnone']
  · simp only [hsome, hsome', hobjects.ref_eq hliteral, hlaw.data_eq hliteral h.pools]

theorem advance_write (hsound : session.Sound) (hsound' : session'.Sound) {handle : Nat} {tx : TxId}
    {offset : Nat} {chunk : Bytes} (hwritable : session.Writable handle tx)
    (hwritable' : session'.Writable handle tx) :
    like.Advance session session' (session.execute (.write handle tx offset chunk))
      (session'.execute (.write handle tx offset chunk)) := by
  have hlent : ∀ {session : Session}, session.Sound → session.Writable handle tx →
      ∃ entry page, session.handle? handle = some entry ∧
        session.pool.cache.peek? page = some entry.ref ∧
        OwnedBy (session.pool.locks.table.records page) tx := by
    rintro session hsound ⟨entry, hentry, loan, hmem, rfl, hmode, href⟩
    obtain ⟨howner, hpeek⟩ := hsound.loans_sound loan hmem hmode
    exact ⟨entry, loan.page, hentry, href ▸ hpeek, howner⟩
  obtain ⟨entry, page, hentry, hpeek, howner⟩ := hlent hsound hwritable
  obtain ⟨entry', page', hentry', hpeek', _⟩ := hlent hsound' hwritable'
  have hobjects : like.Objects session.pool session'.pool entry.ref entry'.ref := by
    rcases h.rosters.handle? handle with ⟨hnone, _⟩ | ⟨found, found', hfound, hfound', hobjects⟩
    · cases hnone.symm.trans hentry
    · rwa [Option.some.inj (hentry.symm.trans hfound), Option.some.inj (hentry'.symm.trans hfound')]
  -- the two objects are of one page, which its writer has locked in both sessions
  obtain rfl : page' = page := by
    rw [← hsound.coherent.named hpeek, ← hsound'.coherent.named hpeek', hobjects.id_eq]
  have haction : ∀ {session : Session} {entry : Handle}, session.handle? handle = some entry →
      session.action (.write handle tx offset chunk) =
        onPage entry.ref (do Page.write tx offset chunk; return .unit) := fun hhandle => by
    simp only [Session.action, Session.onHandle, hhandle]
  have hpages : Together like.Excused
      (do Page.write tx offset chunk; return Answer.unit) (session.pool.page entry.ref)
      (do Page.write tx offset chunk; return Answer.unit) (session'.pool.page entry'.ref)
      (fun answer page answer' page' => answer' = answer ∧ Page.BothRewritten tx
        (session.pool.page entry.ref) (session'.pool.page entry'.ref) page page')
      (Page.BothLeft tx (session.pool.page entry.ref) (session'.pool.page entry'.ref)) :=
    ((Page.together_write (h.pools.data_eq hpeek hpeek') tx offset chunk).mono
      (fun _ _ _ _ hwritten => hwritten) fun _ _ hwritten => .inr hwritten).bind
      fun _ _ _ _ hwritten => ⟨rfl, hwritten⟩
  apply advance_execute
  rw [haction hentry, haction hentry']
  refine Together.mono (goes_onPage hlaw h.pools hpeek hpeek' howner hpages) ?_
    fun _ _ hkeeps => h.keeps hkeeps
  rintro answer after _ after' ⟨hkeeps, rfl, _⟩
  exact ⟨h.keeps hkeeps, .command⟩

/-- The same pages are flushed in both sessions. -/
theorem advance_flush {command : Command} {step : Action Unit} {which : PageId → Prop}
    (haction : ∀ session : Session, session.action command = do step; return .unit)
    (hflushes : ∀ {pool : Pool}, pool.Coherent → pool.locks = session.pool.locks →
      Ends step pool (fun _ after => pool.Flushes which after) fun _ _ => False) :
    like.Advance session session' (session.execute command) (session'.execute command) := by
  apply advance_execute
  rw [haction, haction]
  have hboth : Together like.Excused step session.pool step session'.pool
      (fun _ after _ after' => like.Sessions { session with pool := after }
        { session' with pool := after' }) fun _ _ => False := by
    refine Together.of_ends (hflushes h.pools.left rfl) (hflushes h.pools.right h.pools.locks_eq)
      ?_ (fun _ _ _ _ => False.elim) (fun _ _ _ _ => False.elim) fun _ _ _ _ _ => False.elim
    intro _ after _ after' hafter hafter'
    refine h.withPools ⟨hafter.coherent h.pools.left, hafter'.coherent h.pools.right, ?_,
      hlaw.flushed h.pools hafter hafter'⟩ (hafter.evolves 0).grows (hafter'.evolves 0).grows
    rw [hafter.view_eq h.pools.left, hafter'.view_eq h.pools.right, h.pools.view_eq]
  exact (hboth.mono (fun _ _ _ _ hafter => hafter) fun _ _ => False.elim).bind
    fun _ _ _ _ hafter => ⟨hafter, .command⟩

theorem advance_release {tx : TxId} (hclean : session.pool.Unmodified tx page)
    (hclean' : session'.pool.Unmodified tx page) :
    like.Advance session session' (session.execute (.release tx page))
      (session'.execute (.release tx page)) := by
  have hleft := (Session.releases_release h.pools.left hclean).coherent
  have hright := (Session.releases_release h.pools.right hclean').coherent
  have hrun : ∀ session : Session, session.action (.release tx page) session.pool =
      .ok (.flag (session.pool.locks.release tx page).1)
        { session.pool with locks := (session.pool.locks.release tx page).2 } := fun _ => rfl
  rw [h.pools.locks_eq] at hright
  apply advance_execute
  unfold Together
  rw [hrun, hrun, h.pools.locks_eq]
  refine ⟨h.withPools ⟨hleft, hright, ?_, hlaw.withLocks h.pools _⟩ (grows_withLocks ..)
    (grows_withLocks ..), .command⟩
  exact congrArg (View.withLocks · (session.pool.locks.release tx page).2) h.pools.view_eq

theorem advance_finish (ending : Ending) (tx : TxId) :
    like.Advance session session' (session.execute (.finish ending tx))
      (session'.execute (.finish ending tx)) := by
  have haction : ∀ session : Session,
      session.action (.finish ending tx) = do finish ending tx; return .unit := fun _ => rfl
  apply advance_execute
  rw [haction, haction]
  have hboth : Together like.Excused (finish ending tx) session.pool (finish ending tx)
      session'.pool
      (fun _ after _ after' => like.Sessions { session with pool := after }
        { session' with pool := after' }) fun _ _ => False := by
    refine Together.of_ends (ends_finish_departs h.pools.left ending tx)
      (ends_finish_departs h.pools.right ending tx) ?_ (fun _ _ _ _ => False.elim)
      (fun _ _ _ _ => False.elim) fun _ _ _ _ _ => False.elim
    intro _ after _ after' hafter hafter'
    refine h.withPools ⟨hafter.finishes.coherent, hafter'.finishes.coherent, ?_,
      hlaw.departed h.pools hafter hafter'⟩ (hafter.grows h.pools.left) (hafter'.grows h.pools.right)
    rw [hafter.view_eq, hafter'.view_eq, h.pools.view_eq]
  exact (hboth.mono (fun _ _ _ _ hafter => hafter) fun _ _ => False.elim).bind
    fun _ _ _ _ hafter => ⟨hafter, .command⟩

end Commands

end Execute

section Step

variable (hlaw : like.Lawful) (h : like.Sessions session session')
include hlaw h

theorem advance_start (hroom : session.pool.HasRoomFor call) (hadmits : session.pool.Admits call)
    (id : Nat) :
    like.Advance session session' (session.start id call) (session'.start id call) := by
  unfold Session.start
  rcases h.rosters.task? id with ⟨hnone, hnone'⟩ | ⟨task, task', hsome, hsome', _⟩
  · rw [hnone, hnone']
    exact advance_after hlaw h (goes_start hlaw h.pools hadmits hroom) id call _
  · rw [hsome, hsome']
    exact ⟨[], [], rfl, rfl, .inl ⟨h, .nil⟩⟩

/-- A held-up read gets its bytes in both sessions. -/
theorem advance_load (htask : like.Tasks session.pool session'.pool task task')
    (hroom : session.pool.HasRoomFor task.call) (hsound : task.Sound session.pool session.loans)
    (hsound' : task'.Sound session'.pool session'.loans) {loaded : Page}
    (hwait : task.wait = .reading loaded) :
    like.Advance session session' (session.arrive task loaded) (session'.arrive task' loaded) := by
  have hwait' := htask.wait_eq.trans hwait
  unfold Task.Sound at hsound hsound'
  simp only [hwait] at hsound
  simp only [hwait', htask.request_eq] at hsound'
  obtain ⟨hop, ⟨data, rfl, hreading⟩, _⟩ := hsound
  obtain ⟨hop', ⟨data', hloaded, hreading'⟩, _⟩ := hsound'
  obtain rfl : data = data' := congrArg Page.data hloaded
  exact advance_arrive hlaw h htask hroom rfl hop hop' (fun _ => hreading.stored_eq)
    fun _ => hreading'.stored_eq

theorem advance_command {command : Command} (hsound : session.Sound) (hsound' : session'.Sound)
    (hallows : session.Allows command) (hallows' : session'.Allows command) :
    like.Advance session session' (session.execute command) (session'.execute command) := by
  cases command with
  | read handle => exact advance_read hlaw h handle
  | write handle tx offset chunk => exact advance_write hlaw h hsound hsound' hallows hallows'
  | mark => cases hallows
  | flushPage page =>
      exact advance_flush hlaw h (fun _ => rfl) fun hpool _ => ends_flushPage_flushes hpool page
  | flushTransaction tx =>
      exact advance_flush hlaw h (fun _ => rfl) fun hpool hlocks =>
        hlocks ▸ ends_flushTransaction_flushes hpool tx
  | flushAll => exact advance_flush hlaw h (fun _ => rfl) fun hpool _ => ends_flushAll_flushes hpool
  | discardPage => cases hallows
  | release tx page => exact advance_release hlaw h hallows.2 hallows'.2
  | completeLocks => cases hallows
  | finish ending tx => exact advance_finish hlaw h ending tx

/-- **One event.** It lets two sessions over pools that are alike go on alike. -/
theorem Sessions.step (hsound : session.Sound) (hsound' : session'.Sound) {event : Event}
    (hroom : session.HasRoom event) (hpermits : session.Permits event)
    (hpermits' : session'.Permits event) :
    like.Advance session session' (session.step event) (session'.step event) := by
  have hidle : like.Advance session session' session session' :=
    ⟨[], [], rfl, rfl, .inl ⟨h, .nil⟩⟩
  have htasks : ∀ id, (event = .evaluate id ∨ (∃ timedOut elapsed, event = .wake id timedOut elapsed) ∨
      event = .load id) → (session.task? id = none ∧ session'.task? id = none) ∨
      ∃ task task', session.task? id = some task ∧ session'.task? id = some task' ∧
        like.Tasks session.pool session'.pool task task' ∧ session.pool.HasRoomFor task.call ∧
        task.Sound session.pool session.loans ∧ task'.Sound session'.pool session'.loans := by
    intro id hevent
    refine (h.rosters.task? id).imp_right ?_
    rintro ⟨task, task', hsome, hsome', htask⟩
    have hcall : session.call? event = some task.call := by
      rcases hevent with rfl | ⟨_, _, rfl⟩ | rfl <;> exact congrArg (Option.map Task.call) hsome
    exact ⟨task, task', hsome, hsome', htask, hroom task.call hcall,
      hsound.tasks_sound task (Session.task?_mem hsome).1,
      hsound'.tasks_sound task' (Session.task?_mem hsome').1⟩
  refine Advance.deliver hlaw ?_
  cases event with
  | start id call => exact advance_start hlaw h (hroom call rfl) hpermits.2 id
  | command command => exact advance_command hlaw h hsound hsound' hpermits hpermits'
  | evaluate id =>
      rcases htasks id (.inl rfl) with
        ⟨hnone, hnone'⟩ | ⟨task, task', hsome, hsome', htask, hroom, hfit, hfit'⟩
      · simpa only [Session.react, hnone, hnone'] using hidle
      simp only [Session.react, hsome, hsome', htask.wait_eq]
      split
      · next hwait =>
        have hwait' := htask.wait_eq.trans hwait
        unfold Task.Sound at hfit hfit'
        simp only [hwait] at hfit
        simp only [hwait'] at hfit'
        exact advance_evaluate hlaw h htask hroom hfit hfit'
      · exact hidle
  | wake id timedOut elapsed =>
      rcases htasks id (.inr (.inl ⟨_, _, rfl⟩)) with
        ⟨hnone, hnone'⟩ | ⟨task, task', hsome, hsome', htask, hroom, hfit, hfit'⟩
      · simpa only [Session.react, hnone, hnone'] using hidle
      simp only [Session.react, hsome, hsome', htask.wait_eq]
      split
      · next budget _ hwait =>
        have hwait' := htask.wait_eq.trans hwait
        unfold Task.Sound at hfit hfit'
        simp only [hwait] at hfit
        simp only [hwait'] at hfit'
        exact advance_wake hlaw h htask hroom hfit hfit' budget timedOut elapsed
      · exact hidle
  | load id =>
      rcases htasks id (.inr (.inr rfl)) with
        ⟨hnone, hnone'⟩ | ⟨task, task', hsome, hsome', htask, hroom, hfit, hfit'⟩
      · simpa only [Session.react, hnone, hnone'] using hidle
      simp only [Session.react, hsome, hsome', htask.wait_eq]
      split
      · next loaded hwait => exact advance_load hlaw h htask hroom hfit hfit' hwait
      · exact hidle

end Step

end Likeness

end PagePool
