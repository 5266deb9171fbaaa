import PagePool.Proofs.Pool.Tenure

/-!
# Operations leave writers their pages

What must hold of an operation so that its stretches, from one lock request to the next, leave
their pages to all who own them.
-/

namespace PagePool

open LockRecord Pool

namespace Pool

/-- The table that a call changes. -/
def Concerns (pool : Pool) (call : Call) (table : Table) : Prop :=
  match call with
  | .insert _ number _ => pool.table? number = some table
  | .delete _ tuple => ∃ rid, tuple.rid = some rid ∧ pool.table? rid.page.table = some table
  | .insertInto _ other _ | .deleteFrom _ other _ => other = table
  | .acquire .. | .get .. | .scan .. => False

/-- An object that an insertion has stamped under locks of a mode. If its writer owns the page, it
is still there. -/
structure Stamped (regime : Regime) (pool : Pool) (tx : TxId) (mode : LockMode) (ref : PageRef) :
    Prop where
  inside : ref < pool.frames.next
  owned : regime ≠ .free → mode = .exclusive →
    OwnedBy (pool.locks.table.records (pool.page ref).id) tx
  resident : regime ≠ .free → OwnedBy (pool.locks.table.records (pool.page ref).id) tx →
    pool.cache.peek? (pool.page ref).id = some ref ∧ (pool.page ref).beforeImage.isSome

end Pool

/-- An operation belongs to its call, and asks for the lock that its goal needs. -/
def Goal.Suits (goal : Goal) (regime : Regime) (pool : Pool) (call : Call) (request : Request) :
    Prop :=
  match goal with
  | .lock => call = .acquire request.tx request.page request.mode
  | .page => call = .get request.tx request.page request.mode
  | .insert insertion layout placement => pool.Concerns call insertion.table ∧
      insertion.table.kind = .heap layout ∧ call.inserted? = some insertion.tuple ∧
      request.mode = placement.mode
  | .stamp insertion _ _ _ changed => pool.Concerns call insertion.table ∧
      insertion.table.kind = .stamps request.mode ∧
      (regime = .strict → request.mode = .exclusive) ∧
      ∀ ref ∈ changed, pool.Stamped regime request.tx request.mode ref
  | .delete layout _ _ => (∃ table, pool.Concerns call table ∧ table.kind = .heap layout) ∧
      call.inserted? = none ∧ request.mode = .exclusive
  | .unstamp _ => (∃ table mode, pool.Concerns call table ∧ table.kind = .stamps mode) ∧
      request.mode = .exclusive
  | .scan table .. => call = .scan request.tx table

structure Operation.Suits (operation : Operation) (regime : Regime) (pool : Pool) (call : Call) :
    Prop where
  tx_eq : operation.request.tx = call.tx
  suits : operation.goal.Suits regime pool call operation.request

/-- What an operation looks at for its first time it does not own. -/
def Operation.Fresh (operation : Operation) (regime : Regime) (pool : Pool) (call : Call) : Prop :=
  regime ≠ .free → operation.goal.drops = true →
    ¬OwnedBy (pool.locks.table.records operation.request.page) call.tx

/-- A page is handed out with its object in the cache, and for writing to its owner. -/
def Outcome.Gives (outcome : Outcome) (regime : Regime) (pool : Pool) (call : Call) : Prop :=
  ∀ ref, outcome.result = .ok (.page ref) → ∃ page mode, call = .get call.tx page mode ∧
    pool.cache.peek? page = some ref ∧
    (regime ≠ .free → mode = .exclusive → OwnedBy (pool.locks.table.records page) call.tx)

def Step.Suits (step : Step) (regime : Regime) (pool : Pool) (call : Call) : Prop :=
  match step with
  | .ask operation => operation.Suits regime pool call ∧ operation.Fresh regime pool call
  | .done outcome => outcome.Gives regime pool call

section Facts

variable {regime : Regime} {drops : PageId → Prop} {pool before after : Pool} {tx actor : TxId}
  {call : Call} {request : Request} {goal : Goal} {operation : Operation} {mode : LockMode}
  {ref : PageRef}

theorem Pool.Drifts.concerns (h : Drifts regime tx drops before after) {table : Table}
    (hconcerns : before.Concerns call table) : after.Concerns call table := by
  cases call with
  | insert _ number _ => exact h.table?_some hconcerns
  | delete _ tuple =>
      obtain ⟨rid, hrid, htable⟩ := hconcerns
      exact ⟨rid, hrid, h.table?_some htable⟩
  | _ => exact hconcerns

/-- The objects that an insertion has stamped stay, unless its transaction comes to own more. -/
theorem Pool.Stamped.drifts (hstamped : before.Stamped regime tx mode ref)
    (h : Drifts regime actor drops before after)
    (hkept : regime ≠ .free → ∀ id, ¬(tx = actor ∧ drops id))
    (hunowned : regime ≠ .free → ∀ id, OwnedBy (after.locks.table.records id) tx →
      OwnedBy (before.locks.table.records id) tx) : after.Stamped regime tx mode ref := by
  have hid := h.id_eq ref hstamped.inside
  refine ⟨Nat.lt_of_lt_of_le hstamped.inside h.next_le, fun hkeeps hmode => ?_,
    fun hkeeps howner => ?_⟩
  · rw [hid]
    exact h.owned hkeeps (hkept hkeeps _) (hstamped.owned hkeeps hmode)
  · rw [hid] at howner ⊢
    have howner := hunowned hkeeps _ howner
    obtain ⟨hpeek, himage⟩ := hstamped.resident hkeeps howner
    obtain ⟨hpeek', himage'⟩ := h.resident hkeeps (hkept hkeeps _) howner hpeek
    exact ⟨hpeek', himage' himage⟩

theorem Goal.Suits.drifts (hsuits : goal.Suits regime before call request)
    (h : Drifts regime actor drops before after)
    (hkept : regime ≠ .free → ∀ id, ¬(request.tx = actor ∧ drops id))
    (hunowned : regime ≠ .free → ∀ id, OwnedBy (after.locks.table.records id) request.tx →
      OwnedBy (before.locks.table.records id) request.tx) :
    goal.Suits regime after call request := by
  cases goal with
  | insert insertion layout placement => exact ⟨h.concerns hsuits.1, hsuits.2⟩
  | stamp insertion index cell rest changed =>
      exact ⟨h.concerns hsuits.1, hsuits.2.1, hsuits.2.2.1, fun ref hmem =>
        (hsuits.2.2.2 ref hmem).drifts h hkept hunowned⟩
  | delete layout tuple pooled =>
      obtain ⟨⟨table, hconcerns, hkind⟩, hmode⟩ := hsuits
      exact ⟨⟨table, h.concerns hconcerns, hkind⟩, hmode⟩
  | unstamp pooled =>
      obtain ⟨⟨table, mode, hconcerns, hkind⟩, hmode⟩ := hsuits
      exact ⟨⟨table, mode, h.concerns hconcerns, hkind⟩, hmode⟩
  | _ => exact hsuits

/-- What others do leaves an operation as it is. -/
theorem Operation.Suits.spared (hsuits : operation.Suits regime before call)
    (h : Drifts regime actor drops before after) (hother : regime ≠ .free → call.tx ≠ actor) :
    operation.Suits regime after call := by
  have hne : regime ≠ .free → operation.request.tx ≠ actor := hsuits.tx_eq ▸ hother
  exact ⟨hsuits.tx_eq, hsuits.suits.drifts h (fun hkeeps _ hsame => hne hkeeps hsame.1)
    fun hkeeps _ howner => h.unowned (hne hkeeps) howner⟩

theorem Operation.Suits.of_table_eq (hsuits : operation.Suits regime before call)
    (h : Drifts regime actor (fun _ => False) before after)
    (htable : after.locks.table = before.locks.table) : operation.Suits regime after call :=
  ⟨hsuits.tx_eq, hsuits.suits.drifts h (fun _ _ hsame => hsame.2) fun _ _ howner => htable ▸ howner⟩

theorem Operation.Fresh.spared (hfresh : operation.Fresh regime before call)
    (h : Drifts regime actor drops before after) (hother : regime ≠ .free → call.tx ≠ actor) :
    operation.Fresh regime after call :=
  fun hkeeps hdrops howner => hfresh hkeeps hdrops (h.unowned (hother hkeeps) howner)

theorem Operation.Fresh.of_table_eq (hfresh : operation.Fresh regime before call)
    (htable : after.locks.table = before.locks.table) : operation.Fresh regime after call := by
  unfold Operation.Fresh
  rw [htable]
  exact hfresh

/-- A lock that has been granted makes its holder the owner of no page but the one it asked for, and
of this one only if it asked to write. -/
theorem ownedBy_granted {locks : LockManager} (hfree : pool.locks.table.blockers request = [])
    (htable : locks.table = pool.locks.table.grant request) {owner : TxId} {id : PageId} :
    OwnedBy (locks.table.records id) owner ↔ OwnedBy (pool.locks.table.records id) owner ∨
      (id = request.page ∧ owner = request.tx ∧ request.mode = .exclusive) := by
  rw [htable]
  by_cases hpage : id = request.page
  · rw [hpage, LockTable.ownedBy_grant hfree]
    simp
  · simp [LockTable.records_grant_of_ne hpage, hpage]

theorem Operation.Suits.granted {locks : LockManager} (hsuits : operation.Suits regime pool call)
    (h : pool.Tidy regime) (hfree : pool.locks.table.blockers operation.request = [])
    (htable : locks.table = pool.locks.table.grant operation.request) :
    operation.Suits regime { pool with locks } call := by
  obtain ⟨htx, hgoal⟩ := hsuits
  refine ⟨htx, ?_⟩
  have hdrift : Drifts regime operation.request.tx (fun _ => False) pool { pool with locks } :=
    .grant h hfree htable
  by_cases hmode : operation.request.mode = .exclusive
  · cases hcase : operation.goal with
    | stamp insertion index cell rest changed =>
        rw [hcase] at hgoal
        refine ⟨hdrift.concerns hgoal.1, hgoal.2.1, hgoal.2.2.1, fun ref hmem => ?_⟩
        have hstamped := hgoal.2.2.2 ref hmem
        -- an insertion under exclusive locks owns what it has stamped already
        refine ⟨hstamped.inside, fun hkeeps _ => ?_, fun hkeeps _ => ?_⟩
        · exact (ownedBy_granted hfree htable).2 (.inl (hstamped.owned hkeeps hmode))
        · exact hstamped.resident hkeeps (hstamped.owned hkeeps hmode)
    | _ =>
        rw [hcase] at hgoal
        exact hgoal
  · exact hgoal.drifts hdrift (fun _ _ hsame => hsame.2) fun _ id howner =>
      ((ownedBy_granted hfree htable).1 howner).resolve_right fun hnew => hmode hnew.2.2

/-- An inspection asks to read. -/
theorem Operation.Fresh.granted {locks : LockManager} (hfresh : operation.Fresh regime pool call)
    (hsuits : operation.Suits regime pool call)
    (hfree : pool.locks.table.blockers operation.request = [])
    (htable : locks.table = pool.locks.table.grant operation.request) :
    operation.Fresh regime { pool with locks } call := by
  intro hkeeps hdrops howner
  rcases (ownedBy_granted hfree htable).1 howner with hold | ⟨_, _, hmode⟩
  · exact hfresh hkeeps hdrops hold
  · have hgoal := hsuits.suits
    cases hcase : operation.goal with
    | insert insertion layout placement =>
        rw [hcase] at hgoal hdrops
        cases placement with
        | inspect index bound held =>
            have := hmode.symm.trans hgoal.2.2.2
            cases this
        | upgrade => cases hdrops
        | append => cases hdrops
    | _ =>
        rw [hcase] at hdrops
        cases hdrops

theorem Outcome.gives_error (regime : Regime) (pool : Pool) (call : Call) (failure : Failure)
    (tuple : Option Tuple) : Outcome.Gives ⟨.error failure, tuple⟩ regime pool call :=
  fun _ hpage => nomatch hpage

theorem Outcome.gives_ok (regime : Regime) (pool : Pool) (call : Call) {answer : Answer}
    (tuple : Option Tuple) (h : ∀ ref, answer ≠ .page ref) :
    Outcome.Gives ⟨.ok answer, tuple⟩ regime pool call :=
  fun ref hpage => absurd (Except.ok.inj hpage) (h ref)

end Facts

namespace Pool.Tidy

variable {regime : Regime} {pool : Pool} {drops : PageId → Prop} {actor : TxId} {call : Call}
  {mode : LockMode}

section Steps

variable (h : pool.Tidy regime)
include h

/-- A page goes back that its reader does not own, so nobody loses one. -/
theorem ends_releaseLock (actor : TxId) (drops : PageId → Prop) {tx : TxId} {id : PageId}
    (hreader : regime ≠ .free → ¬OwnedBy (pool.locks.table.records id) tx) :
    Ends (releaseLock tx id) pool (fun _ after => Drifts regime actor drops pool after)
      (fun _ _ => False) := by
  have htable : (pool.locks.release tx id).2.table = pool.locks.table.release tx id := by
    unfold LockManager.release
    split <;> rfl
  rw [ends_releaseLock_iff]
  refine @Drifts.unlock _ _ _ _ h tx _ fun other => ?_
  rw [htable, LockTable.records_release]
  by_cases hsame : other = id
  · rw [if_pos hsame, hsame]
    exact .inr ⟨rfl, fun hkeeps howner => absurd howner (hreader hkeeps),
      fun hstrict howner => absurd howner (hreader (by simp [hstrict]))⟩
  · exact .inl (if_neg hsame)

theorem ends_allocatePage (actor : TxId) (drops : PageId → Prop) (table : Table) :
    Ends (allocatePage table) pool
      (fun _ after => Drifts regime actor drops pool after ∧ after.locks = pool.locks)
      (fun _ after => Drifts regime actor drops pool after) := by
  rw [ends_allocatePage_iff]
  apply (Volume.ends_appendPage_lasts _ pool.pageSize).mono
  · exact fun _ _ hlasts => ⟨.setVolume h fun _ => hlasts, rfl⟩
  · exact fun _ _ hlasts => .setVolume h fun _ => hlasts

theorem ends_holdDirty {tx : TxId} {refs : List PageRef}
    (hrefs : ∀ ref ∈ refs, pool.Stamped regime tx mode ref) :
    Ends (holdDirty tx refs) pool (fun _ after => Drifts regime actor (fun _ => False) pool after)
      (fun _ after => Drifts regime actor (fun _ => False) pool after) := by
  induction refs generalizing pool with
  | nil => exact .refl h
  | cons ref rest ih =>
      have hstamped := hrefs ref List.mem_cons_self
      rw [ends_holdDirty_cons]
      split
      case isFalse => exact .refl h
      next hmode =>
      have howner := LockTable.mode?_eq_exclusive_iff.1 hmode
      have hmarked : Drifts regime actor (fun _ => False) pool
          (pool.setPage ref ((pool.page ref).mark tx true)) := by
        refine .setPage h rfl (fun hpeek => ?_) fun _ _ _ himage => himage
        exact (h.kept hpeek).mark howner fun hkeeps => (hstamped.resident hkeeps howner).2
      have hin : ref < (pool.setPage ref ((pool.page ref).mark tx true)).frames.next := by
        rw [next_setPage]
        exact hstamped.inside
      refine (hmarked.tidy.ends_cachePage actor (fun _ => False) hin
        (hmarked.id_eq ref hstamped.inside) fun hkeeps =>
          (hstamped.resident hkeeps howner).1).mono ?_ fun _ _ hafter => hafter ▸ hmarked
      intro _ middle hmiddle
      obtain ⟨hcached, hlocks⟩ := hmiddle
      have hboth := hmarked.trans hcached
      refine (ih hcached.tidy fun other hmem => ?_).mono (fun _ _ hafter => hboth.trans hafter)
        fun _ _ hafter => hboth.trans hafter
      exact (hrefs other (List.mem_cons_of_mem _ hmem)).drifts hboth (fun _ _ hsame => hsame.2)
        fun _ _ hafter => hlocks ▸ hafter

theorem ends_hold (pooled : Bool) {tx : TxId} {refs : List PageRef}
    (hrefs : ∀ ref ∈ refs, pool.Stamped regime tx mode ref) :
    Ends (hold pooled tx refs) pool (fun _ after => Drifts regime actor (fun _ => False) pool after)
      (fun _ after => Drifts regime actor (fun _ => False) pool after) := by
  unfold hold
  split
  · exact h.ends_holdDirty hrefs
  · exact .refl h

theorem ends_inspectFrom {insertion : Insertion} {layout : Layout}
    (hconcerns : pool.Concerns call insertion.table)
    (hkind : insertion.table.kind = .heap layout)
    (htuple : call.inserted? = some insertion.tuple) (index bound : Nat) :
    Ends (inspectFrom call.tx insertion layout index bound) pool
      (fun step after => Drifts regime call.tx (fun _ => False) pool after ∧
        step.Suits regime after call)
      (fun _ after => Drifts regime call.tx (fun _ => False) pool after) := by
  rw [ends_inspectFrom_iff]
  split
  · refine ⟨.refl h, ⟨rfl, hconcerns, hkind, htuple, rfl⟩, fun _ hdrops howner => ?_⟩
    have hholds := LockTable.holds_iff.2 howner.heldBy
    change (!pool.locks.table.holds call.tx (insertion.table.page index)) = true at hdrops
    rw [hholds] at hdrops
    cases hdrops
  · refine (h.ends_allocatePage call.tx (fun _ => False) insertion.table).mono ?_ fun _ _ hafter =>
      hafter
    intro page after hafter
    exact ⟨hafter.1, ⟨rfl, hafter.1.concerns hconcerns, hkind, htuple, rfl⟩,
      fun _ hdrops => nomatch hdrops⟩

theorem ends_stampFrom {insertion : Insertion} (hconcerns : pool.Concerns call insertion.table)
    (hkind : insertion.table.kind = .stamps mode)
    (hmode : regime = .strict → mode = .exclusive) (index : Nat) {changed : List PageRef}
    (hchanged : ∀ ref ∈ changed, pool.Stamped regime call.tx mode ref) (cells : List Cell) :
    Ends (stampFrom call.tx insertion mode index changed cells) pool
      (fun step after => Drifts regime call.tx (fun _ => False) pool after ∧
        step.Suits regime after call)
      (fun _ after => Drifts regime call.tx (fun _ => False) pool after) := by
  cases cells with
  | nil =>
      unfold stampFrom
      refine (h.ends_hold insertion.pooled hchanged).bind ?_ fun _ _ hafter => hafter
      intro _ after hafter
      exact ⟨hafter, Outcome.gives_ok regime after call _ fun _ => nofun⟩
  | cons cell rest =>
      exact ⟨.refl h, ⟨rfl, hconcerns, hkind, hmode, hchanged⟩, fun _ hdrops => nomatch hdrops⟩

theorem ends_insertion_start {insertion : Insertion}
    (hconcerns : pool.Concerns call insertion.table)
    (htuple : call.inserted? = some insertion.tuple)
    (hguarded : regime = .strict → insertion.table.kind ≠ .stamps .shared) :
    Ends (insertion.start call.tx) pool
      (fun step after => Drifts regime call.tx (fun _ => False) pool after ∧
        step.Suits regime after call)
      (fun _ after => Drifts regime call.tx (fun _ => False) pool after) := by
  unfold Insertion.start
  cases hkind : insertion.table.kind with
  | heap layout =>
      refine (ends_pageCount insertion.table pool).bind ?_ fun _ _ hafter => by
        rw [hafter]
        exact .refl h
      intro count middle hmiddle
      rw [hmiddle.1]
      exact h.ends_inspectFrom hconcerns hkind htuple 0 count
  | stamps mode =>
      refine h.ends_stampFrom hconcerns hkind (fun hstrict => ?_) 0 (by simp) insertion.tuple.cells
      cases mode with
      | shared => exact absurd hkind (hguarded hstrict)
      | exclusive => rfl

theorem ends_startDelete {table : Table} {tuple : Tuple} (hconcerns : pool.Concerns call table)
    (hdeletes : call.inserted? = none) (pooled : Bool) :
    Ends (startDelete call.tx table tuple pooled) pool
      (fun step after => Drifts regime call.tx (fun _ => False) pool after ∧
        step.Suits regime after call)
      (fun _ after => Drifts regime call.tx (fun _ => False) pool after) := by
  unfold startDelete
  cases tuple.rid with
  | none => exact .refl h
  | some rid =>
      dsimp only
      cases hkind : table.kind with
      | heap layout =>
          dsimp only
          split
          · exact .refl h
          · exact ⟨.refl h, ⟨rfl, ⟨table, hconcerns, hkind⟩, hdeletes, rfl⟩,
              fun _ hdrops => nomatch hdrops⟩
      | stamps mode =>
          exact ⟨.refl h, ⟨rfl, ⟨table, mode, hconcerns, hkind⟩, rfl⟩,
            fun _ hdrops => nomatch hdrops⟩

omit h in
theorem suits_scanFrom (tx : TxId) (table : Table) (layout : Layout) (index bound : Nat)
    (found : List Tuple) :
    (scanFrom tx table layout index bound found).Suits regime pool (.scan tx table) := by
  unfold scanFrom
  split
  · exact ⟨⟨rfl, rfl⟩, fun _ hdrops => nomatch hdrops⟩
  · exact Outcome.gives_ok regime pool _ none fun _ => nofun

theorem kind_ne_shared {number : UInt32} {table : Table}
    (htable : pool.table? number = some table) (hstrict : regime = .strict) :
    table.kind ≠ .stamps .shared :=
  h.guarded hstrict table (List.mem_of_find?_eq_some htable)

/-- A call goes up to its first lock request. -/
theorem ends_start (hadmits : regime = .strict → pool.Admits call) :
    Ends call.start pool
      (fun step after => Drifts regime call.tx (fun _ => False) pool after ∧
        step.Suits regime after call)
      (fun _ after => Drifts regime call.tx (fun _ => False) pool after) := by
  have hsame : ∀ {tx}, Drifts regime tx (fun _ => False) pool pool := .refl h
  cases call with
  | acquire tx page mode | get tx page mode =>
      exact ⟨hsame, ⟨rfl, rfl⟩, fun _ hdrops => absurd hdrops Bool.false_ne_true⟩
  | insert tx number tuple =>
      refine (ends_getTable number pool).bind ?_ fun _ _ hafter => by
        rw [hafter]
        exact hsame
      intro table middle hmiddle
      obtain ⟨rfl, htable⟩ := hmiddle
      exact @ends_insertion_start _ _ (.insert tx number tuple) h ⟨table, tuple, true⟩ htable rfl
        (h.kind_ne_shared htable)
  | delete tx tuple =>
      simp only [Call.start]
      cases hrid : tuple.rid with
      | none => exact hsame
      | some rid =>
          refine (ends_getTable rid.page.table pool).bind ?_ fun _ _ hafter => by
            rw [hafter]
            exact hsame
          intro table middle hmiddle
          obtain ⟨rfl, htable⟩ := hmiddle
          exact @ends_startDelete _ _ (.delete tx tuple) h table tuple ⟨rid, hrid, htable⟩
            rfl true
  | insertInto tx table tuple =>
      exact @ends_insertion_start _ _ (.insertInto tx table tuple) h ⟨table, tuple, false⟩ rfl rfl
        fun hstrict => h.kind_ne_shared (hadmits hstrict) hstrict
  | deleteFrom tx table tuple =>
      exact @ends_startDelete _ _ (.deleteFrom tx table tuple) h table tuple rfl rfl false
  | scan tx table =>
      simp only [Call.start]
      cases table.layout? with
      | none => exact ⟨hsame, Outcome.gives_ok _ _ _ none fun _ => Answer.noConfusion⟩
      | some layout =>
          refine (ends_pageCount table pool).bind ?_ fun _ _ hafter => by
            rw [hafter]
            exact hsame
          intro count middle hmiddle
          rw [hmiddle.1]
          exact ⟨hsame, suits_scanFrom tx table layout 0 count []⟩

theorem ends_hold_answer (pooled : Bool) {ref : PageRef}
    (hstamped : pool.Stamped regime call.tx mode ref) :
    Ends (hold pooled call.tx [ref]) pool
      (fun _ after => Drifts regime call.tx (fun _ => False) pool after ∧
        (Step.answer .unit).Suits regime after call)
      (fun _ after => Drifts regime call.tx (fun _ => False) pool after) := by
  refine (h.ends_hold pooled (List.forall_mem_singleton.2 hstamped)).mono ?_ fun _ _ hafter =>
    hafter
  intro _ after hafter
  exact ⟨hafter, Outcome.gives_ok regime after call _ fun _ => nofun⟩

section Proceed

variable {ref : PageRef} {request : Request} (hpeek : pool.cache.peek? request.page = some ref)
  (howner : regime ≠ .free → request.mode = .exclusive →
    OwnedBy (pool.locks.table.records request.page) call.tx)
include hpeek howner

/-- A step on the page that an operation has got, and the object is stamped from then on. -/
theorem ends_rewrite {Result : Type} {step : EStateM Failure Page Result}
    (hmode : regime = .strict → request.mode = .exclusive)
    (hstep : Ends step (pool.page ref) (fun _ after => (pool.page ref).Rewritten call.tx after)
      (fun _ after => after = pool.page ref ∨ (pool.page ref).Rewritten call.tx after)) :
    Ends (onPage ref step) pool
      (fun _ middle => Drifts regime call.tx (fun _ => False) pool middle ∧
        middle.locks = pool.locks ∧ middle.Stamped regime call.tx request.mode ref)
      (fun _ after => Drifts regime call.tx (fun _ => False) pool after) := by
  have hnamed := h.named hpeek
  have howner' : regime = .strict → pool.cache.peek? (pool.page ref).id = some ref →
      OwnedBy (pool.locks.table.records (pool.page ref).id) call.tx := by
    intro hstrict _
    rw [hnamed]
    exact howner (by simp [hstrict]) (hmode hstrict)
  refine (h.ends_onPage (h.inside hpeek) hstep howner').mono ?_ fun _ _ hafter => hafter
  intro result middle hmiddle
  obtain ⟨hdrifts, hlocks, hcache, himage⟩ := hmiddle
  have hid : (middle.page ref).id = request.page :=
    (hdrifts.id_eq ref (h.inside hpeek)).trans hnamed
  refine ⟨hdrifts, hlocks, Nat.lt_of_lt_of_le (h.inside hpeek) hdrifts.next_le,
    fun hkeeps hexclusive => ?_, fun _ _ => ⟨?_, himage⟩⟩
  · rw [hid, hlocks]
    exact howner hkeeps hexclusive
  · rw [hid, hcache]
    exact hpeek

theorem ends_place (hmode : request.mode = .exclusive) (insertion : Insertion) (layout : Layout) :
    Ends (insertion.place call.tx layout ref) pool
      (fun step after => Drifts regime call.tx (fun _ => False) pool after ∧
        step.Suits regime after call)
      (fun _ after => Drifts regime call.tx (fun _ => False) pool after) := by
  rw [ends_place_iff]
  refine (h.ends_rewrite hpeek howner (fun _ => hmode)
    (layout.ends_insert call.tx _ insertion.tuple)).mono ?_ fun _ _ hafter => hafter
  rintro placed middle ⟨hdrifts, _, hstamped⟩
  have hrefs := List.forall_mem_singleton.2 hstamped
  refine (@ends_hold _ _ call.tx _ hdrifts.tidy insertion.pooled call.tx _ hrefs).mono ?_ ?_
  · intro _ after hafter
    exact ⟨hdrifts.trans hafter, Outcome.gives_ok regime after call _ fun _ => nofun⟩
  · intro failure after hafter
    exact ⟨hdrifts.trans hafter, Outcome.gives_error regime after call failure _⟩

end Proceed

/-- A stretch of an operation that has got its lock, over the page that it asked for. -/
theorem ends_proceed {operation : Operation} {ref : PageRef}
    (hpeek : pool.cache.peek? operation.request.page = some ref)
    (hsuits : operation.Suits regime pool call) (hfresh : operation.Fresh regime pool call)
    (howner : regime ≠ .free → operation.request.mode = .exclusive →
      OwnedBy (pool.locks.table.records operation.request.page) call.tx) :
    Ends (operation.proceed ref) pool
      (fun step after => Drifts regime call.tx (fun _ => False) pool after ∧
        step.Suits regime after call)
      (fun _ after => Drifts regime call.tx (fun _ => False) pool after) := by
  obtain ⟨request, goal⟩ := operation
  obtain ⟨htx, hgoal⟩ := hsuits
  have hsame : ∀ {drops}, Drifts regime call.tx drops pool pool := .refl h
  dsimp only at hpeek htx hgoal hfresh howner
  rw [ends_proceed_iff, htx]
  cases goal with
  | lock => exact ⟨hsame, Outcome.gives_ok regime pool call none fun _ => nofun⟩
  | page =>
      refine ⟨hsame, fun lent hlent => ?_⟩
      cases hlent
      refine ⟨request.page, request.mode, ?_, hpeek, howner⟩
      rw [← htx]
      exact hgoal
  | insert insertion layout placement =>
      obtain ⟨hconcerns, hkind, htuple, hmode⟩ := hgoal
      cases placement with
      | inspect index bound held =>
          refine ⟨fun _ _ => hsame, fun free _ => ?_⟩
          split
          · exact ⟨hsame, ⟨rfl, hconcerns, hkind, htuple, rfl⟩, fun _ hdrops => nomatch hdrops⟩
          split
          · exact h.ends_inspectFrom hconcerns hkind htuple (index + 1) bound
          · next hdrops =>
            refine (h.ends_releaseLock call.tx (fun _ => False) fun hkeeps =>
              hfresh hkeeps (by simpa [Goal.drops] using hdrops)).mono ?_ fun _ _ => False.elim
            intro _ middle hmiddle
            exact (hmiddle.tidy.ends_inspectFrom (hmiddle.concerns hconcerns) hkind htuple
              (index + 1) bound).mono (fun _ _ hafter => ⟨hmiddle.trans hafter.1, hafter.2⟩)
              fun _ _ hafter => hmiddle.trans hafter
      | upgrade => exact h.ends_place hpeek howner hmode insertion layout
      | append => exact h.ends_place hpeek howner hmode insertion layout
  | stamp insertion index cell rest changed =>
      obtain ⟨hconcerns, hkind, hmode, hchanged⟩ := hgoal
      refine (h.ends_rewrite hpeek howner hmode ((Page.ends_write_rewritten ..).mono
        (fun _ _ hafter => hafter) fun _ _ => .inr)).mono ?_ fun _ _ hafter => hafter
      rintro _ middle ⟨hdrifts, hlocks, hstamped⟩
      refine (hdrifts.tidy.ends_stampFrom (hdrifts.concerns hconcerns) hkind hmode (index + 1)
        (fun other hmem => ?_) rest).mono (fun _ _ hafter => ⟨hdrifts.trans hafter.1, hafter.2⟩)
        fun _ _ hafter => hdrifts.trans hafter
      rcases List.mem_append.1 hmem with hold | hnew
      · rw [← htx]
        exact (hchanged other hold).drifts hdrifts (fun _ _ hsame => hsame.2) fun _ _ howner =>
          hlocks ▸ howner
      · exact List.mem_singleton.1 hnew ▸ hstamped
  | delete layout tuple pooled =>
      obtain ⟨_, _, hmode⟩ := hgoal
      refine (h.ends_rewrite hpeek howner (fun _ => hmode) ((layout.ends_delete call.tx _ tuple).mono
        (fun _ _ hafter => hafter) fun _ _ => .inl)).mono ?_ fun _ _ hafter => hafter
      rintro _ middle ⟨hdrifts, _, hstamped⟩
      exact (hdrifts.tidy.ends_hold_answer pooled hstamped).mono
        (fun _ _ hafter => ⟨hdrifts.trans hafter.1, hafter.2⟩) fun _ _ hafter => hdrifts.trans hafter
  | unstamp pooled =>
      obtain ⟨_, hmode⟩ := hgoal
      refine (h.ends_rewrite hpeek howner (fun _ => hmode) ((Page.ends_write_rewritten ..).mono
        (fun _ _ hafter => hafter) fun _ _ => .inr)).mono ?_ fun _ _ hafter => hafter
      rintro _ middle ⟨hdrifts, _, hstamped⟩
      exact (hdrifts.tidy.ends_hold_answer pooled hstamped).mono
        (fun _ _ hafter => ⟨hdrifts.trans hafter.1, hafter.2⟩) fun _ _ hafter => hdrifts.trans hafter
  | scan table layout index bound found =>
      refine ⟨fun _ _ => hsame, fun tuples _ => ⟨hsame, ?_⟩⟩
      rw [show call = .scan request.tx table from hgoal]
      exact suits_scanFrom ..

end Steps

end Pool.Tidy

end PagePool
