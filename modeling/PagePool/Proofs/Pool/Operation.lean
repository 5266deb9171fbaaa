import PagePool.Pool.Operation
import PagePool.Proofs.Pool.Access

/-!
# Operations between two lock requests

What must hold of an operation that waits for its lock, and of one that has got it, so that the
pages it then changes are its own. Each stretch of an operation lets the pool evolve and leaves an
operation that waits again, or an outcome that lends a page under the lock that was asked for.
-/

namespace PagePool

open LockRecord Standing Pool

/-- What a call may do to the pages. -/
def Call.deed : Call → Deed
  | .acquire .. | .get .. | .scan .. => .access
  | .insert .. | .delete .. | .insertInto .. | .deleteFrom .. => .change

theorem Call.deed_ne_flush (call : Call) : call.deed ≠ .flush := by
  cases call <;> simp [Call.deed]

/-- An inspection of a page that the transaction had not locked before gives the lock back. -/
def Goal.drops : Goal → Bool
  | .insert _ _ (.inspect _ _ held) => !held
  | _ => false

/-- Pages are looked at under a shared lock and filled under an exclusive one. -/
def Placement.mode : Placement → LockMode
  | .inspect .. => .shared
  | .upgrade | .append => .exclusive

namespace Pool

def Registered (pool : Pool) (table : Table) : Prop :=
  pool.table? table.id = some table

/-- Calls that name a table name one of the pool's. -/
def Admits (pool : Pool) : Call → Prop
  | .insertInto _ table _ | .deleteFrom _ table _ | .scan _ table => pool.Registered table
  | .acquire .. | .get .. | .insert .. | .delete .. => True

/-- The insertions of every table write under exclusive locks. -/
def Strict (pool : Pool) : Prop :=
  ∀ table ∈ pool.tables, table.kind ≠ .stamps .shared

/-- The table has no page under the last number that there is, so it has fewer than 2 ^ 32. -/
def HasRoom (pool : Pool) (table : Table) : Prop :=
  pool.stored? { table := table.id, index := UInt32.ofNat (UInt32.size - 1) } = none

/-- The heap table that a call inserts into, the only one that it may append a page to. -/
def grown? (pool : Pool) (call : Call) : Option Table :=
  Option.filter (·.layout?.isSome) <|
    match call with
    | .insert _ id _ => pool.table? id
    | .insertInto _ table _ => some table
    | _ => none

/-- The transaction acts, and nobody is shown anything else. -/
structure Unwritten (tx : TxId) (before after : Pool) : Prop where
  evolves : Evolves .change tx before after
  content_eq : after.content = before.content

/-- An insertion that may append a page finds a number for it: its table has fewer than 2 ^ 32
pages. -/
def HasRoomFor (pool : Pool) (call : Call) : Prop :=
  ∀ table ∈ pool.grown? call, pool.HasRoom table

end Pool

/-- An operation asks for the lock that its goal needs. -/
def Goal.Fits (goal : Goal) (pool : Pool) (call : Call) (request : Request) : Prop :=
  match goal with
  | .lock | .scan .. => True
  | .page => call = .get request.tx request.page request.mode
  | .insert insertion _ placement =>
      pool.grown? call = some insertion.table ∧ pool.Registered insertion.table ∧
        request.mode = placement.mode
  | .stamp _ _ _ _ changed =>
      call.deed = .change ∧ request.mode = .exclusive ∧
        ∀ ref ∈ changed, pool.Modified request.tx ref
  | .delete .. | .unstamp .. => call.deed = .change ∧ request.mode = .exclusive

namespace Operation

structure Sound (operation : Operation) (pool : Pool) (call : Call) : Prop where
  tx_eq : operation.request.tx = call.tx
  fits : operation.goal.Fits pool call operation.request

/-- The lock of the operation has not been granted. -/
structure Waits (operation : Operation) (pool : Pool) (call : Call) : Prop
    extends Sound operation pool call where
  fresh : operation.goal.drops = true →
    ¬HeldBy (pool.locks.table.records operation.request.page) call.tx

/-- The lock of the operation has been granted, and the operation has not gone on yet. -/
structure Entitled (operation : Operation) (pool : Pool) (call : Call) : Prop
    extends Sound operation pool call where
  heldBy : HeldBy (pool.locks.table.records operation.request.page) call.tx
  ownedBy : operation.request.mode = .exclusive →
    OwnedBy (pool.locks.table.records operation.request.page) call.tx
  reader : operation.goal.drops = true →
    ¬OwnedBy (pool.locks.table.records operation.request.page) call.tx

end Operation

/-- A page is handed out under the lock that was asked for. -/
def Outcome.Lends (outcome : Outcome) (pool : Pool) (call : Call) : Prop :=
  ∀ ref, outcome.result = .ok (.page ref) → ∃ page mode, call = .get call.tx page mode ∧
    pool.cache.peek? page = some ref ∧ HeldBy (pool.locks.table.records page) call.tx ∧
    (mode = .exclusive → OwnedBy (pool.locks.table.records page) call.tx)

def Step.Fits (step : Step) (pool : Pool) (call : Call) : Prop :=
  match step with
  | .ask operation => operation.Waits pool call
  | .done outcome => outcome.Lends pool call

section Facts

variable {pool before after : Pool} {deed : Deed} {tx : TxId} {call : Call} {goal : Goal}
  {request : Request} {table : Table}

theorem Pool.Evolves.registered (h : Evolves deed tx before after)
    (htable : before.Registered table) : after.Registered table :=
  (h.table?_eq table.id).trans htable

/-- Which table a call inserts into depends on the tables alone. -/
theorem Pool.grown?_congr (h : after.tables = before.tables) (call : Call) :
    after.grown? call = before.grown? call := by
  unfold grown? table?
  rw [h]

theorem Pool.grown?_insert {id : UInt32} {tuple : Tuple} (htable : pool.table? id = some table)
    (hheap : table.layout?.isSome) : pool.grown? (.insert tx id tuple) = some table :=
  Option.filter_eq_some_iff.2 ⟨htable, hheap⟩

theorem Pool.grown?_insertInto {tuple : Tuple} (hheap : table.layout?.isSome) :
    pool.grown? (.insertInto tx table tuple) = some table :=
  Option.filter_eq_some_iff.2 ⟨rfl, hheap⟩

theorem Pool.deed_of_grown? (h : pool.grown? call = some table) : call.deed = .change := by
  cases call <;> first | rfl | cases h

theorem Goal.Fits.evolves (hfits : goal.Fits before call request)
    (h : Evolves deed tx before after) (hbefore : before.Coherent) :
    goal.Fits after call request := by
  cases goal with
  | insert insertion layout placement =>
      exact ⟨(Pool.grown?_congr h.tables_eq call).trans hfits.1, h.registered hfits.2.1, hfits.2.2⟩
  | stamp insertion index cell rest changed =>
      exact ⟨hfits.1, hfits.2.1, fun ref hmem => h.modified hbefore (hfits.2.2 ref hmem)⟩
  | _ => exact hfits

theorem Operation.Sound.evolves {operation : Operation} (hsound : operation.Sound before call)
    (h : Evolves deed tx before after) (hbefore : before.Coherent) :
    operation.Sound after call :=
  ⟨hsound.tx_eq, hsound.fits.evolves h hbefore⟩

theorem Operation.Entitled.of_locks_eq {operation : Operation}
    (hentitled : operation.Entitled before call) (h : Evolves deed tx before after)
    (hbefore : before.Coherent) (hlocks : after.locks = before.locks) :
    operation.Entitled after call := by
  refine ⟨hentitled.toSound.evolves h hbefore, ?_, ?_, ?_⟩
  all_goals rw [hlocks]
  · exact hentitled.heldBy
  · exact hentitled.ownedBy
  · exact hentitled.reader

theorem Outcome.lends_error (pool : Pool) (call : Call) (failure : Failure)
    (tuple : Option Tuple) : Outcome.Lends ⟨.error failure, tuple⟩ pool call :=
  fun _ hpage => by cases hpage

theorem Outcome.lends_ok (pool : Pool) (call : Call) {answer : Answer} (tuple : Option Tuple)
    (h : ∀ ref, answer ≠ .page ref) : Outcome.Lends ⟨.ok answer, tuple⟩ pool call :=
  fun ref hpage => absurd (Except.ok.inj hpage) (h ref)

theorem Pool.HasRoomFor.congr (hroom : before.HasRoomFor call)
    (htables : after.tables = before.tables) (hstored : after.stored? = before.stored?) : after.HasRoomFor call := by
  intro table hgrown
  rw [HasRoom, hstored]
  exact hroom table (Pool.grown?_congr htables call ▸ hgrown)

theorem Pool.Evolves.hasRoom (h : Evolves .access tx before after) (hbefore : before.Coherent)
    (hroom : before.HasRoom table) : after.HasRoom table :=
  (h.moves _).stored_eq_none (by simp) (hbefore.coherent _) hroom

theorem Pool.Evolves.hasRoomFor (h : Evolves .access tx before after) (hbefore : before.Coherent)
    (hroom : before.HasRoomFor call) : after.HasRoomFor call := fun table hgrown =>
  h.hasRoom hbefore (hroom table (Pool.grown?_congr h.tables_eq call ▸ hgrown))

theorem Pool.Unwritten.refl (hpool : pool.Sound) : pool.Unwritten tx pool :=
  ⟨.refl hpool, rfl⟩

theorem Pool.Unwritten.trans {middle : Pool} (h : before.Unwritten tx middle)
    (h' : middle.Unwritten tx after) : before.Unwritten tx after :=
  ⟨h.evolves.trans h'.evolves, h'.content_eq.trans h.content_eq⟩

theorem Pool.Evolves.unwritten (h : Evolves .access tx before after) (hbefore : before.Coherent) :
    before.Unwritten tx after :=
  ⟨h.weaken, h.content_eq (by simp) hbefore⟩

/-- The pages of a table are those below their number. -/
theorem Pool.isSome_stored?_page {count index : Nat} (htable : pool.Registered table)
    (hcount : (pool.volume table.volume).pageCount pool.pageSize = .ok count)
    (hindex : index < UInt32.size) :
    (pool.stored? (table.page index)).isSome ↔ index < count := by
  rw [← Volume.isSome_stored?_iff hcount]
  have hregistered : pool.table? (table.page index).table = some table := htable
  have htoNat : (table.page index).index.toNat = index := UInt32.toNat_ofNat_of_lt' hindex
  rw [stored?, hregistered, Option.bind_some, htoNat]

theorem Pool.HasRoom.volume (hroom : pool.HasRoom table) (htable : pool.Registered table) :
    (pool.volume table.volume).HasRoom pool.pageSize := by
  have hlast := hroom
  rw [HasRoom, stored?, htable, Option.bind_some, UInt32.toNat_ofNat_of_lt' (by decide)] at hlast
  have hsize : UInt32.size = 4294967296 := rfl
  intro count hcount
  unfold Volume.pageCount at hcount
  unfold Volume.stored? at hlast
  cases hmedium : (pool.volume table.volume).medium with
  | file file =>
      simp only [hmedium, File.pageCount] at hcount hlast
      split at hcount
      · cases hcount
      · split at hlast
        · cases hlast
        · have := Except.ok.inj hcount
          omega
  | memory pages =>
      simp only [hmedium, Except.ok.injEq, List.getElem?_eq_none_iff] at hcount hlast
      omega

end Facts

section Steps

variable {pool : Pool} (hpool : pool.Coherent) {tx : TxId} {call : Call}
include hpool

/-- A grant adds to what the requester has, and to nothing else. -/
theorem evolves_grant {deed : Deed} {request : Request} {locks : LockManager}
    (hfree : pool.locks.table.blockers request = [])
    (htable : locks.table = pool.locks.table.grant request) :
    Evolves deed request.tx pool { pool with locks } := by
  refine .locks hpool.toSound locks fun id => ?_
  rw [htable]
  by_cases hpage : id = request.page
  · subst hpage
    have hheld := LockTable.heldBy_grant hfree
    have howned := LockTable.ownedBy_grant hfree
    refine .single (.grant (LockTable.compatible_grant (hpool.coherent _).compatible hfree)
      (fun holder h => (hheld holder).2 (.inl h)) (fun owner h => (howned owner).2 (.inl h))
      (fun holder hother h => ?_) fun owner hother h => ?_)
    · exact ((hheld holder).1 h).resolve_right hother
    · exact ((howned owner).1 h).resolve_right fun hsame => hother hsame.1
  · rw [LockTable.records_grant_of_ne hpage]
    exact .refl

theorem Operation.Waits.granted {operation : Operation} {locks : LockManager}
    (h : operation.Waits pool call) (hfree : pool.locks.table.blockers operation.request = [])
    (htable : locks.table = pool.locks.table.grant operation.request) :
    operation.Entitled { pool with locks } call := by
  have hheld := LockTable.heldBy_grant hfree call.tx
  have howned := LockTable.ownedBy_grant hfree call.tx
  rw [← htable] at hheld howned
  refine ⟨h.toSound.evolves (@evolves_grant pool hpool .access _ _ hfree htable) hpool,
    hheld.2 (.inr h.tx_eq.symm), fun hmode => howned.2 (.inr ⟨h.tx_eq.symm, hmode⟩), ?_⟩
  intro hdrops howner
  rcases howned.1 howner with howner | ⟨_, hmode⟩
  · exact h.fresh hdrops howner.heldBy
  · have hfits := h.fits
    cases hgoal : operation.goal with
    | insert insertion layout placement =>
        rw [hgoal] at hfits hdrops
        cases placement with
        | inspect index bound held =>
            have := hmode.symm.trans hfits.2.2
            cases this
        | upgrade => cases hdrops
        | append => cases hdrops
    | _ =>
        rw [hgoal] at hdrops
        cases hdrops

theorem ends_releaseLock {id : PageId} (hreader : ¬OwnedBy (pool.locks.table.records id) tx) :
    Ends (releaseLock tx id) pool
      (fun _ after => pool.Unwritten tx after ∧ after.tables = pool.tables ∧
        after.stored? = pool.stored?)
      (fun _ _ => False) := by
  have htable : (pool.locks.release tx id).2.table = pool.locks.table.release tx id := by
    unfold LockManager.release
    split <;> rfl
  rw [ends_releaseLock_iff]
  refine ⟨⟨.locks hpool.toSound _ fun other => ?_, rfl⟩, rfl, rfl⟩
  rw [htable, LockTable.records_release]
  split
  · next hsame =>
    subst hsame
    exact .single (.drop rfl hreader)
  · exact .refl

theorem ends_allocatePage {table : Table} (htable : pool.Registered table)
    (hroom : (pool.volume table.volume).HasRoom pool.pageSize) :
    Ends (allocatePage table) pool
      (fun page after => page.table = table.id ∧ pool.Unwritten tx after)
      (fun _ after => pool.Unwritten tx after) := by
  rw [ends_allocatePage_iff]
  refine (Volume.ends_appendPage (hpool.reliable htable) hroom).mono ?_ ?_
  · rintro index volume ⟨hvolume, hnew, hpages⟩
    have hregistered : pool.table? (PageId.mk table.id index).table = some table := htable
    have hstored := stored?_setVolume_page hpool.toSound hregistered hpages
    have hnone : (pool.standing ⟨table.id, index⟩).stored = none := by
      change pool.stored? _ = none
      rw [stored?, hregistered]
      exact hnew
    have hstanding : ∀ other, (pool.setVolume table.volume volume).standing other =
        { pool.standing other with
          stored := if other = ⟨table.id, index⟩ then some (Bytes.zeros pool.pageSize)
            else pool.stored? other } := by
      intro other
      rw [← hstored]
      rfl
    refine ⟨rfl, ⟨hpool.toSound.setVolume htable hvolume, rfl, rfl, Nat.le_refl _, fun other => ?_,
      fun _ _ => rfl, fun _ _ _ => rfl, .inl⟩, funext fun other => ?_⟩
    · rw [hstanding]
      split
      · next hsame => exact .single (.append rfl (hsame ▸ hnone))
      · exact .refl
    · rw [Pool.content, hstanding]
      split
      · next hsame =>
        have hcached := (hpool.coherent other).cached_eq_none (hsame ▸ hnone)
        have hblank : pool.content other = Bytes.zeros pool.pageSize := by
          rw [Pool.content, content_of_absent hcached, hsame, hnone]
          rfl
        rw [hblank]
        exact content_of_absent hcached
      · rfl
  · rintro _ volume ⟨hvolume, hpages⟩
    exact (Evolves.setVolume hpool.toSound htable hvolume hpages).unwritten hpool

theorem ends_holdDirty {refs : List PageRef} (hrefs : ∀ ref ∈ refs, pool.Modified tx ref) :
    Ends (holdDirty tx refs) pool (fun _ after => pool.Unwritten tx after)
      (fun _ _ => False) := by
  induction refs generalizing pool with
  | nil => exact .refl hpool.toSound
  | cons ref rest ih =>
      obtain ⟨id, hpeek, howner, himage⟩ := hrefs ref List.mem_cons_self
      have hnamed := hpool.named hpeek
      have hmode := LockTable.mode?_eq_exclusive_iff.2 howner
      rw [ends_holdDirty_cons, hnamed, if_pos hmode]
      have hmarked : pool.Unwritten tx (pool.setPage ref ((pool.page ref).mark tx true)) := by
        refine ⟨.setPage hpool.toSound hpeek hnamed ?_ fun h => absurd rfl h, ?_⟩
        · exact .single (.mark rfl (standing_cached hpeek) howner himage)
        · rw [content_setPage hpool.toSound hpeek, Function.update_eq_self_iff]
          exact (content_of_cached (standing_cached hpeek)).symm
      have hcoherent := hmarked.evolves.coherent hpool
      refine (ends_cachePage_resident hcoherent tx hpeek).mono ?_ fun _ _ => False.elim
      rintro _ middle ⟨hmiddle, _, _⟩
      have hkept := hmarked.trans (hmiddle.unwritten hcoherent)
      refine (ih (hkept.evolves.coherent hpool) fun other hmem => ?_).mono
        (fun _ _ h => hkept.trans h) fun _ _ => False.elim
      exact hkept.evolves.modified hpool (hrefs other (List.mem_cons_of_mem _ hmem))

theorem ends_hold (pooled : Bool) {refs : List PageRef}
    (hrefs : ∀ ref ∈ refs, pool.Modified tx ref) :
    Ends (hold pooled tx refs) pool (fun _ after => pool.Unwritten tx after)
      (fun _ _ => False) := by
  unfold hold
  split
  · exact ends_holdDirty hpool hrefs
  · exact .refl hpool.toSound

theorem ends_inspectFrom {insertion : Insertion}
    (hgrown : pool.grown? call = some insertion.table) (htable : pool.Registered insertion.table)
    (hroom : pool.HasRoomFor call) (layout : Layout) (index bound : Nat) :
    Ends (inspectFrom call.tx insertion layout index bound) pool
      (fun step after => pool.Unwritten call.tx after ∧ step.Fits after call)
      (fun _ after => pool.Unwritten call.tx after) := by
  rw [ends_inspectFrom_iff]
  split
  · refine ⟨.refl hpool.toSound, ⟨rfl, hgrown, htable, rfl⟩, fun hdrops => ?_⟩
    have hheld : pool.locks.table.holds call.tx (insertion.table.page index) = false := by
      simpa [Goal.drops] using hdrops
    rw [← LockTable.holds_iff, hheld]
    exact Bool.false_ne_true
  · refine (ends_allocatePage hpool htable ((hroom _ hgrown).volume htable)).mono ?_
      fun _ _ h => h
    rintro page after ⟨_, hkept⟩
    have hgrown' := (grown?_congr hkept.evolves.tables_eq call).trans hgrown
    exact ⟨hkept, ⟨rfl, hgrown', hkept.evolves.registered htable, rfl⟩, fun hdrops => by
      cases hdrops⟩

theorem ends_stampFrom {insertion : Insertion} (hchanges : call.deed = .change) (index : Nat)
    {changed : List PageRef} (hchanged : ∀ ref ∈ changed, pool.Modified call.tx ref)
    (cells : List Cell) :
    Ends (stampFrom call.tx insertion .exclusive index changed cells) pool
      (fun step after => pool.Unwritten call.tx after ∧ step.Fits after call)
      (fun _ _ => False) := by
  unfold stampFrom
  cases cells with
  | nil =>
      refine (ends_hold hpool insertion.pooled hchanged).bind ?_ fun _ _ => False.elim
      intro _ after hkept
      exact ⟨hkept, Outcome.lends_ok after call _ fun _ h => by cases h⟩
  | cons cell rest =>
      exact ⟨.refl hpool.toSound, ⟨rfl, hchanges, rfl, hchanged⟩, fun hdrops => by cases hdrops⟩

theorem ends_insertion_start {insertion : Insertion} (hchanges : call.deed = .change)
    (hgrown : insertion.table.layout?.isSome → pool.grown? call = some insertion.table)
    (htable : pool.Registered insertion.table) (hstrict : pool.Strict)
    (hroom : pool.HasRoomFor call) :
    Ends (insertion.start call.tx) pool
      (fun step after => pool.Unwritten call.tx after ∧ step.Fits after call)
      (fun _ after => pool.Unwritten call.tx after) := by
  have hmem : insertion.table ∈ pool.tables := List.mem_of_find?_eq_some htable
  unfold Insertion.start
  cases hkind : insertion.table.kind with
  | heap layout =>
      refine (ends_pageCount insertion.table pool).bind ?_ fun _ after hafter => by
        rw [hafter]
        exact .refl hpool.toSound
      rintro count pool ⟨rfl, _⟩
      have hheap : insertion.table.layout?.isSome := by rw [Table.layout?, hkind]; rfl
      exact ends_inspectFrom hpool (hgrown hheap) htable hroom layout 0 count
  | stamps mode =>
      have hmode : mode = .exclusive := by
        cases mode with
        | shared => exact absurd hkind (hstrict _ hmem)
        | exclusive => rfl
      subst hmode
      exact (ends_stampFrom hpool hchanges 0 (by simp) _).mono (fun _ _ h => h) fun _ _ =>
        False.elim

theorem ends_startDelete (hchanges : call.deed = .change) (table : Table) (tuple : Tuple)
    (pooled : Bool) :
    Ends (startDelete call.tx table tuple pooled) pool
      (fun step after => Evolves .change call.tx pool after ∧ step.Fits after call)
      (fun _ after => Evolves .change call.tx pool after) := by
  have hsame : Evolves .change call.tx pool pool := .refl hpool.toSound
  have hasks : ∀ {page goal}, goal.drops = false →
      goal.Fits pool call ⟨call.tx, page, .exclusive⟩ →
      (Step.lock call.tx page .exclusive goal).Fits pool call := fun hdrops hfits =>
    ⟨⟨rfl, hfits⟩, fun h => absurd (hdrops.symm.trans h) Bool.false_ne_true⟩
  unfold startDelete
  cases tuple.rid with
  | none => exact hsame
  | some rid =>
      cases table.kind with
      | heap layout =>
          dsimp only
          split
          · exact hsame
          · exact ⟨hsame, hasks rfl ⟨hchanges, rfl⟩⟩
      | stamps mode => exact ⟨hsame, hasks rfl ⟨hchanges, rfl⟩⟩

omit hpool in
theorem fits_scanFrom (table : Table) (layout : Layout) (index bound : Nat) (found : List Tuple) :
    (scanFrom call.tx table layout index bound found).Fits pool call := by
  unfold scanFrom
  split
  · exact ⟨⟨rfl, trivial⟩, fun hdrops => by cases hdrops⟩
  · exact Outcome.lends_ok pool call none fun _ h => by cases h

theorem ends_start (hadmits : pool.Admits call) (hstrict : pool.Strict)
    (hroom : pool.HasRoomFor call) :
    Ends call.start pool
      (fun step after => Evolves call.deed call.tx pool after ∧ step.Fits after call)
      (fun _ after => Evolves call.deed call.tx pool after) := by
  have hsame : ∀ {deed}, Evolves deed call.tx pool pool := .refl hpool.toSound
  cases call with
  | acquire tx page mode => exact ⟨hsame, ⟨rfl, trivial⟩, fun hdrops => by cases hdrops⟩
  | get tx page mode => exact ⟨hsame, ⟨rfl, rfl⟩, fun hdrops => by cases hdrops⟩
  | insert tx number tuple =>
      refine (ends_getTable number pool).bind ?_ fun _ _ hafter => by
        rw [hafter]
        exact hsame
      rintro table pool ⟨rfl, htable⟩
      have hregistered : pool.Registered table := by rwa [Registered, table?_id htable]
      exact (@ends_insertion_start pool hpool (.insert tx number tuple) ⟨table, tuple, true⟩ rfl
        (grown?_insert htable) hregistered hstrict hroom).mono (fun _ _ h => ⟨h.1.evolves, h.2⟩)
        fun _ _ h => h.evolves
  | delete tx tuple =>
      simp only [Call.start]
      cases hrid : tuple.rid with
      | none => exact hsame
      | some rid =>
          refine (ends_getTable rid.page.table pool).bind ?_ fun _ _ hafter => by
            rw [hafter]
            exact hsame
          rintro table pool ⟨rfl, htable⟩
          exact @ends_startDelete pool hpool (.delete tx tuple) rfl table tuple true
  | insertInto tx table tuple =>
      exact (@ends_insertion_start pool hpool (.insertInto tx table tuple) ⟨table, tuple, false⟩
        rfl grown?_insertInto hadmits hstrict hroom).mono (fun _ _ h => ⟨h.1.evolves, h.2⟩)
        fun _ _ h => h.evolves
  | deleteFrom tx table tuple =>
      exact @ends_startDelete pool hpool (.deleteFrom tx table tuple) rfl table tuple false
  | scan tx table =>
      simp only [Call.start]
      cases table.layout? with
      | none => exact ⟨hsame, Outcome.lends_ok _ _ none fun _ h => by cases h⟩
      | some layout =>
          refine (ends_pageCount table pool).bind ?_ fun _ after hafter => by
            rw [hafter]
            exact hsame
          rintro count pool ⟨rfl, _⟩
          exact ⟨hsame, @fits_scanFrom pool (.scan tx table) table layout 0 count []⟩

theorem ends_hold_answer (pooled : Bool) {ref : PageRef} (hmodified : pool.Modified call.tx ref) :
    Ends (hold pooled call.tx [ref]) pool
      (fun _ after => Evolves .change call.tx pool after ∧ (Step.answer .unit).Fits after call)
      (fun _ after => Evolves .change call.tx pool after) := by
  refine (ends_hold hpool pooled (List.forall_mem_singleton.2 hmodified)).mono ?_
    fun _ _ => False.elim
  intro _ after hkept
  exact ⟨hkept.evolves, Outcome.lends_ok after call _ fun _ h => by cases h⟩

section Proceed

variable {ref : PageRef} {id : PageId} (hpeek : pool.cache.peek? id = some ref)
include hpeek

/-- An owner rewrites its page before it goes on. -/
theorem ends_rewrite {Result Next : Type} {step : EStateM Failure Page Result}
    {next : Result → Action Next} {ok : Next → Pool → Prop}
    (howner : OwnedBy (pool.locks.table.records id) call.tx)
    (hstep : Ends step (pool.page ref) (fun _ after => (pool.page ref).Rewritten call.tx after)
      (fun _ after => after = pool.page ref ∨ (pool.page ref).Rewritten call.tx after))
    (hnext : ∀ result middle, middle.Coherent → Evolves .change call.tx pool middle →
      middle.Modified call.tx ref → Ends (next result) middle
        (fun value after => Evolves .change call.tx middle after ∧ ok value after)
        (fun _ after => Evolves .change call.tx middle after)) :
    Ends (onPage ref step) pool
      (fun result middle => Ends (next result) middle
        (fun value after => Evolves .change call.tx pool after ∧ ok value after)
        (fun _ after => Evolves .change call.tx pool after))
      (fun _ after => Evolves .change call.tx pool after) := by
  refine (ends_onPage_owned hpool hpeek howner hstep).mono ?_ fun _ _ h => h
  rintro result middle ⟨hevolves, _, hmodified⟩
  exact (hnext result middle (hevolves.coherent hpool) hevolves hmodified).mono
    (fun _ _ h => ⟨hevolves.trans h.1, h.2⟩) fun _ _ h => hevolves.trans h

theorem ends_place (howner : OwnedBy (pool.locks.table.records id) call.tx)
    (insertion : Insertion) (layout : Layout) :
    Ends (insertion.place call.tx layout ref) pool
      (fun step after => Evolves .change call.tx pool after ∧ step.Fits after call)
      (fun _ after => Evolves .change call.tx pool after) := by
  rw [ends_place_iff]
  refine (ends_onPage_owned hpool hpeek howner (layout.ends_insert call.tx _ insertion.tuple)).mono
    ?_ fun _ _ h => h
  rintro placed middle ⟨hevolves, _, hmodified⟩
  refine (ends_hold (hevolves.coherent hpool) insertion.pooled
    (List.forall_mem_singleton.2 hmodified)).mono ?_ fun _ _ => False.elim
  intro _ after hkept
  exact ⟨hevolves.trans hkept.evolves, Outcome.lends_ok after call _ fun _ h => by cases h⟩

/-- A stretch of an operation that has got its lock, over the page that it asked for. -/
theorem ends_proceed {operation : Operation} (hop : operation.Entitled pool call)
    (hpage : operation.request.page = id) (hroom : pool.HasRoomFor call) :
    Ends (operation.proceed ref) pool
      (fun step after => Evolves call.deed call.tx pool after ∧ step.Fits after call)
      (fun _ after => Evolves call.deed call.tx pool after) := by
  obtain ⟨⟨tx, page, mode⟩, goal⟩ := operation
  obtain ⟨⟨htx, hfits⟩, hheld, howned, hreader⟩ := hop
  have hsame : ∀ {deed}, Evolves deed call.tx pool pool := .refl hpool.toSound
  simp only at htx hpage hheld howned hreader hfits
  subst hpage htx
  rw [ends_proceed_iff]
  cases goal with
  | lock => exact ⟨hsame, Outcome.lends_ok pool call none fun _ h => by cases h⟩
  | page =>
      refine ⟨hsame, fun lent hlent => ?_⟩
      cases hlent
      exact ⟨page, mode, hfits, hpeek, hheld, howned⟩
  | insert insertion layout placement =>
      obtain ⟨hgrown, htable, hmode⟩ := hfits
      rw [deed_of_grown? hgrown]
      cases placement with
      | inspect index bound held =>
          refine ⟨fun _ _ => hsame, fun free _ => ?_⟩
          split
          · exact ⟨hsame, ⟨rfl, hgrown, htable, rfl⟩, fun hdrops => by cases hdrops⟩
          split
          · exact (ends_inspectFrom hpool hgrown htable hroom layout (index + 1) bound).mono
              (fun _ _ h => ⟨h.1.evolves, h.2⟩) fun _ _ h => h.evolves
          · next hfresh =>
            refine (ends_releaseLock hpool (hreader (by simpa [Goal.drops] using hfresh))).mono ?_
              fun _ _ => False.elim
            rintro _ middle ⟨⟨hevolves, _⟩, htables, hstored⟩
            have hgrown' := (grown?_congr htables call).trans hgrown
            exact (ends_inspectFrom (hevolves.coherent hpool) hgrown' (hevolves.registered htable)
              (hroom.congr htables hstored) layout (index + 1) bound).mono
              (fun _ _ h => ⟨hevolves.trans h.1.evolves, h.2⟩) fun _ _ h => hevolves.trans h.evolves
      | upgrade =>
          exact ends_place hpool hpeek (howned hmode) insertion layout
      | append =>
          exact ends_place hpool hpeek (howned hmode) insertion layout
  | stamp insertion index cell rest changed =>
      obtain ⟨hchanges, hexclusive, hchanged⟩ := hfits
      rw [hchanges]
      refine ends_rewrite hpool hpeek (howned hexclusive)
        ((Page.ends_write_rewritten ..).mono (fun _ _ h => h) fun _ _ h => .inr h) ?_
      intro _ middle hmiddle hevolves hmodified
      dsimp only at hexclusive ⊢
      rw [hexclusive]
      refine (ends_stampFrom hmiddle hchanges (index + 1) (fun other hother => ?_) rest).mono
        (fun _ _ h => ⟨h.1.evolves, h.2⟩) fun _ _ => False.elim
      rcases List.mem_append.1 hother with hold | hnew
      · exact hevolves.modified hpool (hchanged other hold)
      · exact List.mem_singleton.1 hnew ▸ hmodified
  | delete layout tuple pooled =>
      obtain ⟨hchanges, hexclusive⟩ := hfits
      rw [hchanges]
      refine ends_rewrite hpool hpeek (howned hexclusive)
        ((layout.ends_delete call.tx _ tuple).mono (fun _ _ h => h) fun _ _ h => .inl h) ?_
      intro _ middle hmiddle _ hmodified
      exact ends_hold_answer hmiddle pooled hmodified
  | unstamp pooled =>
      obtain ⟨hchanges, hexclusive⟩ := hfits
      rw [hchanges]
      refine ends_rewrite hpool hpeek (howned hexclusive)
        ((Page.ends_write_rewritten ..).mono (fun _ _ h => h) fun _ _ h => .inr h) ?_
      intro _ middle hmiddle _ hmodified
      exact ends_hold_answer hmiddle pooled hmodified
  | scan table layout index bound found =>
      exact ⟨fun _ _ => hsame, fun tuples _ => ⟨hsame, fits_scanFrom ..⟩⟩

end Proceed

end Steps

end PagePool
