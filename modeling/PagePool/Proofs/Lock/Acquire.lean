import PagePool.Proofs.Lock.Modes
import PagePool.Proofs.Lock.Run

/-!
# A lock request from its issue to its end

One evaluation of a request looks at the records of its page and at nothing else: it is granted
unless somebody else has a lock that it cannot stand beside. A grant changes the records of the
requester on that page, and a request that ends in an error has changed no record at all: the table
is what the acts of all others have made of it.
-/

namespace PagePool

open LockRecord

/-- A request with this permission cannot stand beside the lock of somebody else. -/
def Permission.Bars : Permission → LockRecord → Prop
  | .readOnly, record => record.mode = .exclusive
  | .readWrite, _ => True

/-- The lock of a transaction after a grant: the one asked for, or the one it had if that is
stronger. -/
def Permission.joined : Permission → Option LockMode → LockMode
  | .readOnly, held => held.getD .shared
  | .readWrite, _ => .exclusive

/-- The transactions that an evaluation names as blockers. -/
def Verdict.blockers : Verdict → List TxId
  | .granted => []
  | .blocked blockers => blockers
  | .cycle blockers _ => blockers

namespace LockTable

variable {table : LockTable} {request : Request} {tx other : TxId} {page id : PageId}

theorem nodup_eraseDups (txs : List TxId) : txs.eraseDups.Nodup := by
  cases txs with
  | nil => exact List.nodup_nil
  | cons first txs =>
      rw [List.eraseDups_cons, List.nodup_cons, List.mem_eraseDups]
      exact ⟨by simp, nodup_eraseDups _⟩
termination_by txs.length
decreasing_by exact Nat.lt_succ_of_le (List.length_filter_le ..)

theorem nodup_blockers (table : LockTable) (request : Request) :
    (table.blockers request).Nodup :=
  nodup_eraseDups _

theorem conflicts_iff {permission : Permission} {record : LockRecord} :
    conflicts { tx, page, mode := permission.mode } record = true ↔
      record.tx ≠ tx ∧ permission.Bars record := by
  cases permission <;> simp [conflicts, Permission.mode, Permission.Bars]

theorem mem_blockers_permission {permission : Permission} :
    other ∈ table.blockers { tx, page, mode := permission.mode } ↔
      ∃ record ∈ table.records page, record.tx = other ∧ other ≠ tx ∧ permission.Bars record := by
  rw [mem_blockers_iff]
  refine exists_congr fun record => and_congr_right fun _ => ?_
  rw [conflicts_iff]
  constructor
  · rintro ⟨⟨hne, hbars⟩, rfl⟩
    exact ⟨rfl, hne, hbars⟩
  · rintro ⟨rfl, hne, hbars⟩
    exact ⟨⟨hne, hbars⟩, rfl⟩

/-- A grant leaves the records of all others as they are, in their order. -/
theorem filter_records_grant (hfree : table.blockers request = []) (page : PageId) :
    ((table.grant request).records page).filter (·.tx ≠ request.tx) =
      (table.records page).filter (·.tx ≠ request.tx) := by
  by_cases hpage : page = request.page
  · subst hpage
    have hgranted := granted_grant hfree
    have hwriter := fun hmode record (hmem : record ∈ table.records request.page) =>
      tx_eq_of_exclusive hfree hmode hmem
    generalize (table.grant request).records request.page = after at hgranted
    cases hgranted with
    | added => simp
    | kept => rfl
    | upgraded hheld hmode =>
        -- all records are the writer's own, so nothing is left on either side
        have hnone : (table.records request.page).filter (·.tx ≠ request.tx) = [] :=
          List.filter_eq_nil_iff.2 fun record hmem => by simpa using hwriter hmode record hmem
        rw [hnone, List.filter_eq_nil_iff]
        intro record hmem
        obtain ⟨source, hsource, rfl⟩ := List.mem_map.1 hmem
        simpa using hwriter hmode source hsource
  · rw [records_grant_of_ne hpage]

/-- Who asks for what it has already changes nothing. -/
theorem records_grant_of_held (hsound : Compatible request.page (table.records request.page))
    (hfree : table.blockers request = [])
    (hmode : table.mode? request.tx request.page = some request.mode ∨
      table.mode? request.tx request.page = some .exclusive) (page : PageId) :
    (table.grant request).records page = table.records page := by
  by_cases hpage : page = request.page
  · subst hpage
    have hheld : HeldBy (table.records request.page) request.tx := by
      rw [← holds_iff, holds]
      rcases hmode with hmode | hmode <;> rw [hmode] <;> rfl
    have hgranted := granted_grant hfree
    generalize (table.grant request).records request.page = after at hgranted
    cases hgranted with
    | added hnew => exact absurd hheld hnew
    | kept => rfl
    | upgraded _ hexclusive =>
        rw [hexclusive, or_self, mode?_eq_exclusive_iff] at hmode
        obtain ⟨record, hmem, _, hrecord⟩ := hmode
        rw [hsound.alone record hmem hrecord, List.map_singleton, ← hrecord]
  · exact records_grant_of_ne hpage

theorem mode?_grant_permission {permission : Permission}
    (hfree : table.blockers { tx, page, mode := permission.mode } = []) :
    (table.grant { tx, page, mode := permission.mode }).mode? tx page =
      some (permission.joined (table.mode? tx page)) := by
  rw [mode?_grant hfree]
  cases permission with
  | readWrite =>
      have hgrant := LockModes.grant_exclusive table.mode? tx page
      exact (congrFun₂ hgrant tx page).trans (LockModes.put_self ..)
  | readOnly =>
      cases hmode : table.mode? tx page with
      | none => simp [LockModes.grant, Permission.mode, Permission.joined, hmode]
      | some mode => simp [LockModes.grant, Permission.mode, Permission.joined, hmode]

end LockTable

namespace LockManager

open LockTable

variable {manager other : LockManager} {request : Request} {tx : TxId}

theorem evaluate_of_free (hfree : manager.table.blockers request = []) :
    manager.evaluate request =
      (.granted, { manager with table := manager.table.grant request }.stopWaiting request.tx) := by
  unfold evaluate
  rw [hfree]

theorem evaluate_of_blocked (hblocked : manager.table.blockers request ≠ []) :
    (manager.evaluate request).1 ≠ .granted ∧
      (manager.evaluate request).1.blockers = manager.table.blockers request ∧
      (manager.evaluate request).2.table = manager.table := by
  unfold evaluate
  cases hblockers : manager.table.blockers request with
  | nil => exact absurd hblockers hblocked
  | cons blocker rest =>
      dsimp only
      cases WaitForGraph.findDeadlock _ _ _ with
      | some chain => exact ⟨by simp, rfl, rfl⟩
      | none => exact ⟨by simp, rfl, rfl⟩

theorem evaluate_eq_granted_iff :
    (manager.evaluate request).1 = .granted ↔ manager.table.blockers request = [] := by
  constructor
  · intro hgranted
    by_contra hblocked
    exact (evaluate_of_blocked hblocked).1 hgranted
  · intro hfree
    rw [evaluate_of_free hfree]

theorem blockers_evaluate :
    (manager.evaluate request).1.blockers = manager.table.blockers request := by
  by_cases hfree : manager.table.blockers request = []
  · rw [evaluate_of_free hfree, hfree]
    rfl
  · exact (evaluate_of_blocked hfree).2.1

/-- Two lock managers whose graphs may differ. -/
structure SameTable (manager other : LockManager) : Prop where
  table_eq : manager.table = other.table
  policy_eq : manager.policy = other.policy

theorem SameTable.trans {last : LockManager} (h : SameTable manager other)
    (hlast : SameTable other last) : SameTable manager last :=
  ⟨h.table_eq.trans hlast.table_eq, h.policy_eq.trans hlast.policy_eq⟩

/-- An attempt grants its request or leaves the locks alone; the graph aside, it does nothing
else. -/
theorem attempt_snd (manager : LockManager) (request : Request) (budget : Budget) (now : Nat) :
    (manager.attempt request budget now).2 =
      { manager with
        table :=
          if manager.table.blockers request = [] then manager.table.grant request
          else manager.table
        graph := (manager.attempt request budget now).2.graph } := by
  have hattempted := manager.attempted_attempt request budget now
  generalize (manager.attempt request budget now).1 = ruling,
    (manager.attempt request budget now).2 = after at hattempted
  cases hattempted with
  | granted hfree => rw [if_pos hfree]
  | wait hblocked => rw [if_neg hblocked]
  | cycle _ hblocked => rw [if_neg hblocked]
  | timeout hblocked => rw [if_neg hblocked]

theorem table_attempt (manager : LockManager) (request : Request) (budget : Budget) (now : Nat) :
    (manager.attempt request budget now).2.table =
      if manager.table.blockers request = [] then manager.table.grant request
      else manager.table :=
  congrArg table (manager.attempt_snd request budget now)

theorem policy_attempt (manager : LockManager) (request : Request) (budget : Budget) (now : Nat) :
    (manager.attempt request budget now).2.policy = manager.policy := by
  rw [attempt_snd]

theorem notified_attempt (manager : LockManager) (request : Request) (budget : Budget)
    (now : Nat) : (manager.attempt request budget now).2.notified = manager.notified := by
  rw [attempt_snd]

/-- What an act does to the locks does not depend on who waits for whom. -/
theorem SameTable.attempt (h : SameTable manager other) (request : Request)
    (budget budget' : Budget) (now : Nat) :
    SameTable (manager.attempt request budget now).2 (other.attempt request budget' now).2 where
  table_eq := by rw [table_attempt, table_attempt, h.table_eq]
  policy_eq := by rw [policy_attempt, policy_attempt, h.policy_eq]

theorem policy_release (manager : LockManager) (tx : TxId) (page : PageId) :
    (manager.release tx page).2.policy = manager.policy := by
  unfold release
  split <;> rfl

theorem SameTable.act (h : SameTable manager other) (act : Act) :
    SameTable (manager.act act) (other.act act) := by
  cases act with
  | issue tx => exact ⟨h.table_eq, h.policy_eq⟩
  | evaluate request now =>
      have hentered : SameTable (manager.enter request.tx) (other.enter request.tx) :=
        ⟨h.table_eq, h.policy_eq⟩
      simp only [LockManager.act]
      rw [hentered.policy_eq]
      split
      · exact hentered.attempt request _ _ now
      · exact hentered
  | reevaluate request budget now => exact h.attempt request budget budget now
  | release tx page =>
      refine ⟨?_, ?_⟩
      · rw [LockManager.act, LockManager.act, table_release, table_release, h.table_eq]
      · rw [LockManager.act, LockManager.act, policy_release, policy_release, h.policy_eq]
  | complete tx => exact ⟨congrArg (·.complete tx) h.table_eq, h.policy_eq⟩

theorem SameTable.run (h : SameTable manager other) (acts : List Act) :
    SameTable (manager.run acts) (other.run acts) := by
  induction acts generalizing manager other with
  | nil => exact h
  | cons act acts ih => exact ih (h.act act)

theorem run_append (manager : LockManager) (earlier later : List Act) :
    manager.run (earlier ++ later) = (manager.run earlier).run later :=
  List.foldl_append ..

/-- The transaction that an act is an act of. -/
def Act.actor : Act → TxId
  | .issue tx => tx
  | .evaluate request _ => request.tx
  | .reevaluate request _ _ => request.tx
  | .release tx _ => tx
  | .complete tx => tx

/-- Records of a transaction are a matter of its own acts. -/
theorem filter_records_attempt (hne : request.tx ≠ tx) (budget : Budget) (now : Nat)
    (page : PageId) :
    ((manager.attempt request budget now).2.table.records page).filter (·.tx = tx) =
      (manager.table.records page).filter (·.tx = tx) := by
  have hsplit : ∀ records : List LockRecord, records.filter (·.tx = tx) =
      (records.filter (·.tx ≠ request.tx)).filter (·.tx = tx) := fun records => by
    rw [List.filter_filter]
    refine List.filter_congr fun record _ => ?_
    by_cases heq : record.tx = tx
    · simp [heq, hne.symm]
    · simp [heq]
  rw [table_attempt]
  split
  · next hfree => rw [hsplit, filter_records_grant hfree, ← hsplit]
  · rfl

theorem filter_records_act {act : Act} (hne : act.actor ≠ tx) (page : PageId) :
    ((manager.act act).table.records page).filter (·.tx = tx) =
      (manager.table.records page).filter (·.tx = tx) := by
  have hfilter : ∀ gone ≠ tx, ∀ records : List LockRecord,
      (records.filter (·.tx ≠ gone)).filter (·.tx = tx) = records.filter (·.tx = tx) :=
    fun gone hgone records => by
      rw [List.filter_filter]
      refine List.filter_congr fun record _ => ?_
      by_cases heq : record.tx = tx
      · simp [heq, Ne.symm hgone]
      · simp [heq]
  cases act with
  | issue => rfl
  | evaluate request now =>
      simp only [LockManager.act]
      split
      · exact filter_records_attempt hne _ now page
      · rfl
  | reevaluate request budget now => exact filter_records_attempt hne budget now page
  | release gone released =>
      rw [LockManager.act, table_release, records_release]
      split
      · exact hfilter gone hne _
      · rfl
  | complete gone =>
      have hrecords : (manager.act (.complete gone)).table.records page =
          (manager.table.records page).filter (·.tx ≠ gone) := records_complete ..
      rw [hrecords, hfilter gone hne]

theorem filter_records_run {acts : List Act} (hne : ∀ act ∈ acts, act.actor ≠ tx) (page : PageId) :
    ((manager.run acts).table.records page).filter (·.tx = tx) =
      (manager.table.records page).filter (·.tx = tx) := by
  induction acts generalizing manager with
  | nil => rfl
  | cons act acts ih =>
      obtain ⟨hact, hacts⟩ := List.forall_mem_cons.1 hne
      exact (ih hacts).trans (filter_records_act hact page)

/-- One wait of a blocked request: what others do in it, whether it lasts its full time, and the
time at the evaluation that follows. -/
structure Pause where
  acts : List Act
  timedOut : Bool
  now : Nat

/-- Where a request has come to. -/
structure Acquisition where
  /-- How it has ended, if it has. -/
  outcome? : Option (Except Failure Unit)
  manager : LockManager
  /-- The waits that were not needed. -/
  rest : List Pause

end LockManager

def Ruling.outcome? : Ruling → Option (Except Failure Unit)
  | .granted => some (.ok ())
  | .wait => none
  | .refused error => some (.error (.error error))

namespace LockManager

open LockTable

variable {manager other : LockManager} {request : Request} {tx : TxId}

/-- Evaluates a request, and again after each wait, until it is decided. -/
def await (manager : LockManager) (request : Request) (budget : Budget) (now : Nat) :
    List Pause → Acquisition
  | [] =>
      let (ruling, manager) := manager.attempt request budget now
      { outcome? := ruling.outcome?, manager, rest := [] }
  | pause :: pauses =>
      match manager.attempt request budget now with
      | (.wait, manager) =>
          (manager.run pause.acts).await request (budget.afterWait pause.timedOut) pause.now pauses
      | (ruling, manager) => { outcome? := ruling.outcome?, manager, rest := pause :: pauses }

/-- A request from its issue on. Others may do something before its first evaluation begins, and
the time may go on between the start of its budget and the end of that evaluation. -/
def acquire (manager : LockManager) (request : Request) (acts : List Act) (start now : Nat)
    (pauses : List Pause) : Acquisition :=
  let entered := ((manager.issue request.tx).run acts).enter request.tx
  match Budget.start entered.policy start with
  | .ok budget => entered.await request budget now pauses
  | .error failure => { outcome? := some (.error failure), manager := entered, rest := pauses }

/-- A request that is refused leaves the locks alone, and its transaction waits for nobody. -/
theorem attempted_of_error {budget : Budget} {now : Nat} {failure : Failure}
    (h : (manager.attempt request budget now).1.outcome? = some (.error failure)) :
    SameTable (manager.attempt request budget now).2 manager ∧
      (manager.attempt request budget now).2.graph.targets request.tx = [] := by
  have hattempted := manager.attempted_attempt request budget now
  generalize (manager.attempt request budget now).1 = ruling,
    (manager.attempt request budget now).2 = after at hattempted h
  cases hattempted with
  | granted | wait => cases h
  | cycle | timeout =>
      refine ⟨⟨rfl, rfl⟩, ?_⟩
      rw [WaitForGraph.targets_removeWaiter, if_pos rfl]

/-- Induction on the waits: an evaluation that ends in a wait leaves the locks alone as well. -/
theorem await_of_error {budget : Budget} {now : Nat} {pauses : List Pause} {failure : Failure}
    (h : (manager.await request budget now pauses).outcome? = some (.error failure)) :
    ∃ served, pauses = served ++ (manager.await request budget now pauses).rest ∧
      SameTable (manager.await request budget now pauses).manager
        (manager.run (served.flatMap Pause.acts)) ∧
      (manager.await request budget now pauses).manager.graph.targets request.tx = [] := by
  induction pauses generalizing manager budget now with
  | nil => exact ⟨[], rfl, attempted_of_error h⟩
  | cons pause pauses ih =>
      unfold await at h ⊢
      split at h
      · next waiting heq =>
        have hwaiting : SameTable waiting manager := by
          have hattempted := manager.attempted_attempt request budget now
          rw [heq] at hattempted
          cases hattempted
          exact ⟨rfl, rfl⟩
        obtain ⟨served, hserved, htable, htargets⟩ := ih h
        refine ⟨pause :: served, ?_, ?_, htargets⟩
        · rw [List.cons_append, ← hserved]
        · rw [List.flatMap_cons, run_append]
          exact htable.trans ((hwaiting.run pause.acts).run _)
      · next ruling after _ heq =>
        have hattempt : manager.attempt request budget now = (ruling, after) := heq
        have hrefused : (manager.attempt request budget now).1.outcome? =
            some (.error failure) := by
          rw [hattempt]
          exact h
        have herror := attempted_of_error hrefused
        rw [hattempt] at herror
        exact ⟨[], rfl, herror⟩

theorem start_ne_error {policy : LockPolicy} {now : Nat} {error : Error} :
    Budget.start policy now ≠ .error (.error error) := by
  unfold Budget.start
  dsimp only
  split <;> simp

/-- An error leaves the locks as the others have made them. -/
theorem acquire_of_error {acts : List Act} {start now : Nat} {pauses : List Pause} {error : Error}
    (h : (manager.acquire request acts start now pauses).outcome? = some (.error (.error error))) :
    ∃ served, pauses = served ++ (manager.acquire request acts start now pauses).rest ∧
      (manager.acquire request acts start now pauses).manager.table =
        (manager.run (acts ++ served.flatMap Pause.acts)).table ∧
      (manager.acquire request acts start now pauses).manager.graph.targets request.tx = [] := by
  have hissued : SameTable (manager.issue request.tx) manager := ⟨rfl, rfl⟩
  have hentered : SameTable (((manager.issue request.tx).run acts).enter request.tx)
      (manager.run acts) := ⟨(hissued.run acts).table_eq, (hissued.run acts).policy_eq⟩
  unfold acquire at h ⊢
  dsimp only at h ⊢
  split at h
  · obtain ⟨served, hserved, htable, htargets⟩ := await_of_error h
    refine ⟨served, hserved, ?_, htargets⟩
    rw [run_append]
    exact (htable.trans (hentered.run _)).table_eq
  · next failure hstart =>
    obtain rfl : failure = .error error := by simpa using h
    exact absurd hstart start_ne_error

/-- **A lock request is decided by compatibility.** Whatever has been asked of a lock manager: an
evaluation grants a request unless another transaction has a lock on the page that bars it, an
exclusive one for a reader and any lock for a writer. The blockers it names otherwise are these
transactions, each once. A grant gives the requester the stronger one of the lock it had and the
lock it asked for, touches no record of anybody else and no other page, and nothing at all if the
requester had that lock. A request that ends in an error, after whatever waits, leaves the table as
the acts of others have made it, its own transaction with the records it had, and no edge of that
transaction in the wait-for graph. -/
theorem decided_by_compatibility (policy : LockPolicy) (scatter : Scatter) (history : List Act)
    (tx : TxId) (page : PageId) (permission : Permission) :
    let manager := (new policy scatter).run history
    let table := manager.table
    let request : Request := { tx, page, mode := permission.mode }
    let verdict := (manager.evaluate request).1
    let after := (manager.evaluate request).2.table
    (verdict = .granted ↔
      ∀ record ∈ table.records page, record.tx ≠ tx → ¬permission.Bars record) ∧
    (verdict.blockers.Nodup ∧ ∀ other, other ∈ verdict.blockers ↔
      ∃ record ∈ table.records page, record.tx = other ∧ other ≠ tx ∧ permission.Bars record) ∧
    (verdict ≠ .granted → after = table) ∧
    (verdict = .granted →
      after.mode? tx page = some (permission.joined (table.mode? tx page)) ∧
      (∀ id, (after.records id).filter (·.tx ≠ tx) = (table.records id).filter (·.tx ≠ tx)) ∧
      (∀ id ≠ page, after.records id = table.records id) ∧
      (table.mode? tx page = some permission.mode ∨ table.mode? tx page = some .exclusive →
        ∀ id, after.records id = table.records id)) ∧
    (∀ acts start now pauses error,
      let last := manager.acquire request acts start now pauses
      last.outcome? = some (.error (.error error)) →
      ∃ served, pauses = served ++ last.rest ∧
        let others := acts ++ served.flatMap Pause.acts
        last.manager.table = (manager.run others).table ∧
        last.manager.graph.targets tx = [] ∧
        ((∀ act ∈ others, act.actor ≠ tx) → ∀ id,
          (last.manager.table.records id).filter (·.tx = tx) =
            (table.records id).filter (·.tx = tx))) := by
  intro manager table request verdict after
  have hempty : (new policy scatter).table.Sound := LockTable.sound_empty
  have hsound : table.Sound := sound_run hempty history
  have hgranted : verdict = .granted ↔ table.blockers request = [] := evaluate_eq_granted_iff
  have hblockers : verdict.blockers = table.blockers request := blockers_evaluate
  refine ⟨?_, ⟨?_, fun other => ?_⟩, fun hverdict => ?_, fun hverdict => ?_, ?_⟩
  · rw [hgranted, List.eq_nil_iff_forall_not_mem]
    constructor
    · intro hfree record hmem hne hbars
      exact hfree record.tx (mem_blockers_permission.2 ⟨record, hmem, rfl, hne, hbars⟩)
    · intro hfree other hother
      obtain ⟨record, hmem, rfl, hne, hbars⟩ := mem_blockers_permission.1 hother
      exact hfree record hmem hne hbars
  · rw [hblockers]
    exact nodup_blockers table request
  · rw [hblockers]
    exact mem_blockers_permission
  · exact (evaluate_of_blocked fun hfree => hverdict (hgranted.2 hfree)).2.2
  · have hfree := hgranted.1 hverdict
    have hafter : after = table.grant request := by
      change (manager.evaluate request).2.table = _
      rw [evaluate_of_free hfree]
      rfl
    rw [hafter]
    exact ⟨mode?_grant_permission hfree, filter_records_grant hfree,
      fun id hne => records_grant_of_ne hne, records_grant_of_held (hsound page) hfree⟩
  · intro acts start now pauses error last herror
    obtain ⟨served, hserved, htable, htargets⟩ := acquire_of_error herror
    refine ⟨served, hserved, htable, htargets, fun hothers id => ?_⟩
    rw [htable]
    exact filter_records_run hothers id

end LockManager

end PagePool
