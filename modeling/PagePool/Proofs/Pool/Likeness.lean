import PagePool.Proofs.Pool.View
import PagePool.Proofs.Together

/-!
# Pools that look alike

Two pools with the same view answer every call alike, wherever their pages are. A likeness says what
they have in common besides the view, and which failures may come to one of them alone. It is lawful
if all that a pool does to its cache, its page objects and its storage keeps it. Then a call may go
on with any lock that it gets on both pools, and they stay alike.
-/

namespace PagePool

open LockRecord Standing Pool

structure Likeness where
  Also : Pool → Pool → Prop
  /-- The objects are the same under the same numbers. -/
  Literal : Prop
  Excused : Failure → Prop

namespace Likeness

structure Alike (like : Likeness) (pool pool' : Pool) : Prop where
  left : pool.Coherent
  right : pool'.Coherent
  view_eq : pool'.view = pool.view
  also : like.Also pool pool'

structure Lawful (like : Likeness) : Prop where
  ref_eq : like.Literal → ∀ {pool pool'}, like.Alike pool pool' → ∀ {id ref ref'},
    pool.cache.peek? id = some ref → pool'.cache.peek? id = some ref' → ref' = ref
  data_eq : like.Literal → ∀ {pool pool'}, like.Alike pool pool' → ∀ ref,
    (pool'.page ref).data = (pool.page ref).data
  /-- Both find a page, or neither, where it makes a difference to whether a read is held up. -/
  gated : ∀ {pool pool'}, like.Alike pool pool' → ∀ {id}, pool.isGated id = true →
    ((pool'.cache.peek? id).isSome ↔ (pool.cache.peek? id).isSome)
  withLocks : ∀ {pool pool'}, like.Alike pool pool' → ∀ locks,
    like.Also { pool with locks } { pool' with locks }
  still : ∀ {pool pool' after after'}, like.Alike pool pool' → pool.Still after →
    pool'.Still after' → like.Also after after'
  used : ∀ {pool pool'}, like.Alike pool pool' → ∀ id, like.Also (pool.used id) (pool'.used id)
  installed : ∀ {pool pool'}, like.Alike pool pool' → ∀ {id data},
    (pool.cache.peek? id = none → pool.stored? id = some data) →
    (pool'.cache.peek? id = none → pool'.stored? id = some data) →
    Together like.Excused (install (Page.load id data)) pool (install (Page.load id data)) pool'
      (fun _ after _ after' => like.Also after after') like.Also
  written : ∀ {pool pool'}, like.Alike pool pool' → ∀ {id ref ref'},
    pool.cache.peek? id = some ref → pool'.cache.peek? id = some ref' → ∀ tx data,
    like.Also (pool.setPage ref (((pool.page ref).touch tx).withData data))
      (pool'.setPage ref' (((pool'.page ref').touch tx).withData data))
  marked : ∀ {pool pool'}, like.Alike pool pool' → ∀ {id ref ref'},
    pool.cache.peek? id = some ref → pool'.cache.peek? id = some ref' → ∀ tx,
    like.Also (pool.setPage ref ((pool.page ref).mark tx true))
      (pool'.setPage ref' ((pool'.page ref').mark tx true))
  appended : ∀ {pool pool' after after' table}, like.Alike pool pool' → pool.Appends table after →
    pool'.Appends table after' → like.Also after after'
  flushed : ∀ {pool pool' after after' which}, like.Alike pool pool' → pool.Flushes which after →
    pool'.Flushes which after' → like.Also after after'
  departed : ∀ {pool pool' after after' ending tx}, like.Alike pool pool' →
    pool.Departs ending tx after → pool'.Departs ending tx after' → like.Also after after'

/-- The same object in two pools. -/
structure Objects (like : Likeness) (pool pool' : Pool) (ref ref' : PageRef) : Prop where
  ref_eq : like.Literal → ref' = ref
  left : ref < pool.frames.next
  right : ref' < pool'.frames.next
  id_eq : (pool'.page ref').id = (pool.page ref).id

/-- Two pools are alike after steps of a transaction on each of them. -/
structure Keeps (like : Likeness) (tx : TxId) (pool pool' after after' : Pool) : Prop where
  alike : like.Alike after after'
  left : Evolves .change tx pool after
  right : Evolves .change tx pool' after'

/-- A transaction takes a step on both of two pools, which stay alike. -/
def Goes (like : Likeness) (tx : TxId) (pool pool' : Pool) {Result Result' : Type}
    (step : Action Result) (step' : Action Result')
    (ok : Result → Pool → Result' → Pool → Prop) : Prop :=
  Together like.Excused step pool step' pool'
    (fun result after result' after' =>
      like.Keeps tx pool pool' after after' ∧ ok result after result' after')
    (like.Keeps tx pool pool')

end Likeness

/-- The objects that a goal still has to hold. -/
def Goal.changed : Goal → List PageRef
  | .stamp _ _ _ _ changed => changed
  | _ => []

namespace Likeness

inductive Goals (like : Likeness) (pool pool' : Pool) : Goal → Goal → Prop where
  | same {goal : Goal} (hplain : goal.changed = []) : like.Goals pool pool' goal goal
  | stamp {insertion : Insertion} {index : Nat} {cell : Cell} {rest : List Cell}
      {changed changed' : List PageRef}
      (hchanged : List.Forall₂ (like.Objects pool pool') changed changed') :
      like.Goals pool pool' (.stamp insertion index cell rest changed)
        (.stamp insertion index cell rest changed')

inductive Results (like : Likeness) (pool pool' : Pool) :
    Except Failure Answer → Except Failure Answer → Prop where
  | same {result : Except Failure Answer} (hplain : ∀ ref, result ≠ .ok (.page ref)) :
      like.Results pool pool' result result
  | page {ref ref' : PageRef} (hobjects : like.Objects pool pool' ref ref')
      (hdata : (pool'.page ref').data = (pool.page ref).data) :
      like.Results pool pool' (.ok (.page ref)) (.ok (.page ref'))

structure Outcomes (like : Likeness) (pool pool' : Pool) (outcome outcome' : Outcome) : Prop where
  result : like.Results pool pool' outcome.result outcome'.result
  tuple_eq : outcome'.tuple = outcome.tuple

inductive Steps (like : Likeness) (pool pool' : Pool) : Step → Step → Prop where
  | ask {request : Request} {goal goal' : Goal} (hgoal : like.Goals pool pool' goal goal') :
      like.Steps pool pool' (.ask ⟨request, goal⟩) (.ask ⟨request, goal'⟩)
  | done {outcome outcome' : Outcome} (houtcome : like.Outcomes pool pool' outcome outcome') :
      like.Steps pool pool' (.done outcome) (.done outcome')

end Likeness

namespace Pool

/-- No page object has gone, or become the object of another page. -/
structure Grows (before after : Pool) : Prop where
  next_le : before.frames.next ≤ after.frames.next
  id_eq : ∀ ref, ref < before.frames.next → (after.page ref).id = (before.page ref).id

variable {before after : Pool} {deed : Deed} {tx : TxId}

theorem Evolves.grows (h : Evolves deed tx before after) : before.Grows after :=
  ⟨h.next_le, h.id_eq⟩

theorem Departs.grows {ending : Ending} (h : before.Departs ending tx after)
    (hbefore : before.Coherent) : before.Grows after where
  next_le := Nat.le_of_eq h.retains.next_eq.symm
  id_eq ref _ := by
    by_cases hcached : ∃ id, before.cache.peek? id = some ref
    · obtain ⟨id, hpeek⟩ := hcached
      have hpeek' : after.cache.peek? id = some ref := by rw [h.retains.cache_eq, hpeek]
      rw [h.finishes.coherent.named hpeek', hbefore.named hpeek]
    · rw [h.finishes.page_eq ref fun id _ hpeek => hcached ⟨id, hpeek⟩]

end Pool

namespace Likeness

variable {like : Likeness} {pool pool' after after' last last' : Pool} {tx : TxId} {id : PageId}
  {ref ref' : PageRef}

namespace Alike

theorem locks_eq (h : like.Alike pool pool') : pool'.locks = pool.locks :=
  congrArg View.locks h.view_eq

theorem tables_eq (h : like.Alike pool pool') : pool'.tables = pool.tables :=
  congrArg View.tables h.view_eq

theorem pageSize_eq (h : like.Alike pool pool') : pool'.pageSize = pool.pageSize :=
  congrArg View.pageSize h.view_eq

theorem outline_eq (h : like.Alike pool pool') (volume : VolumeRef) :
    pool'.outline volume = pool.outline volume :=
  congrFun (congrArg View.outline h.view_eq) volume

theorem content_eq (h : like.Alike pool pool') (id : PageId) : pool'.content id = pool.content id :=
  congrFun (congrArg View.content h.view_eq) id

theorem outcome_eq (h : like.Alike pool pool') (ending : Ending) (id : PageId) :
    (pool'.standing id).outcome pool'.pageSize ending =
      (pool.standing id).outcome pool.pageSize ending := by
  have himage : (pool'.standing id).image? = (pool.standing id).image? :=
    congrFun (congrArg View.image? h.view_eq) id
  have hcontent : (pool'.standing id).content pool'.pageSize =
      (pool.standing id).content pool.pageSize := h.content_eq id
  cases ending with
  | commit => exact hcontent
  | abort =>
      change Standing.base _ _ = Standing.base _ _
      rw [base_eq_image?, base_eq_image?, himage, hcontent]

theorem table?_eq (h : like.Alike pool pool') (number : UInt32) :
    pool'.table? number = pool.table? number := by
  simp only [table?, h.tables_eq]

theorem admits {call : Call} (h : like.Alike pool pool') (hadmits : pool.Admits call) :
    pool'.Admits call := by
  have hregistered : ∀ table, pool.Registered table → pool'.Registered table := fun table htable =>
    (h.table?_eq table.id).trans htable
  cases call with
  | acquire | get | insert | delete => trivial
  | insertInto tx table tuple => exact hregistered table hadmits
  | deleteFrom tx table tuple => exact hregistered table hadmits
  | scan tx table => exact hregistered table hadmits

theorem isSome_stored? (h : like.Alike pool pool') (id : PageId) :
    (pool'.stored? id).isSome ↔ (pool.stored? id).isSome := by
  rw [← has_view_iff, ← has_view_iff, h.view_eq]

theorem hasRoomFor {call : Call} (h : like.Alike pool pool') (hroom : pool.HasRoomFor call) :
    pool'.HasRoomFor call :=
  hasRoomFor_of_view h.view_eq hroom

theorem isGated_eq (h : like.Alike pool pool') (id : PageId) :
    pool'.isGated id = pool.isGated id := by
  have hgate : ∀ volume, (pool'.volume volume).gateClosed = (pool.volume volume).gateClosed :=
    fun volume => congrArg Volume.Outline.gateClosed (h.outline_eq volume)
  simp only [isGated, h.table?_eq, hgate]

section Objects

variable (h : like.Alike pool pool') (hpeek : pool.cache.peek? id = some ref)
  (hpeek' : pool'.cache.peek? id = some ref')
include h hpeek hpeek'

theorem id_eq : (pool'.page ref').id = (pool.page ref).id :=
  (h.right.named hpeek').trans (h.left.named hpeek).symm

theorem data_eq : (pool'.page ref').data = (pool.page ref).data := by
  have hcontent := h.content_eq id
  rwa [Pool.content, Pool.content, content_of_cached (standing_cached hpeek),
    content_of_cached (standing_cached hpeek')] at hcontent

theorem objects (hlaw : like.Lawful) : like.Objects pool pool' ref ref' where
  ref_eq hliteral := hlaw.ref_eq hliteral h hpeek hpeek'
  left := h.left.inside hpeek
  right := h.right.inside hpeek'
  id_eq := h.id_eq hpeek hpeek'

end Objects

end Alike

theorem Objects.grows (h : like.Objects pool pool' ref ref') (hgrows : pool.Grows after)
    (hgrows' : pool'.Grows after') : like.Objects after after' ref ref' where
  ref_eq := h.ref_eq
  left := Nat.lt_of_lt_of_le h.left hgrows.next_le
  right := Nat.lt_of_lt_of_le h.right hgrows'.next_le
  id_eq := by rw [hgrows.id_eq ref h.left, hgrows'.id_eq ref' h.right, h.id_eq]

theorem Goals.eq_lock_iff {goal goal' : Goal} (h : like.Goals pool pool' goal goal') :
    goal' = .lock ↔ goal = .lock := by
  cases h with
  | same => rfl
  | stamp => simp

theorem Goals.grows {goal goal' : Goal} (h : like.Goals pool pool' goal goal')
    (hgrows : pool.Grows after) (hgrows' : pool'.Grows after') :
    like.Goals after after' goal goal' := by
  cases h with
  | same hplain => exact .same hplain
  | stamp hchanged => exact .stamp (hchanged.imp fun _ _ hobjects => hobjects.grows hgrows hgrows')

namespace Keeps

theorem refl (h : like.Alike pool pool') (tx : TxId) : like.Keeps tx pool pool' pool pool' :=
  ⟨h, .refl h.left.toSound, .refl h.right.toSound⟩

theorem trans (h : like.Keeps tx pool pool' after after')
    (h' : like.Keeps tx after after' last last') : like.Keeps tx pool pool' last last' :=
  ⟨h'.alike, h.left.trans h'.left, h.right.trans h'.right⟩

theorem objects (h : like.Keeps tx pool pool' after after')
    (hobjects : like.Objects pool pool' ref ref') : like.Objects after after' ref ref' :=
  hobjects.grows h.left.grows h.right.grows

end Keeps

section Goes

variable {Result Result' Next Next' : Type} {step : Action Result} {step' : Action Result'}
  {ok : Result → Pool → Result' → Pool → Prop} {next : Next → Pool → Next' → Pool → Prop}

theorem Goes.bind {rest : Result → Action Next} {rest' : Result' → Action Next'}
    (h : like.Goes tx pool pool' step step' ok)
    (hrest : ∀ {result after result' after'}, like.Keeps tx pool pool' after after' →
      ok result after result' after' → like.Goes tx after after' (rest result) (rest' result') next) :
    like.Goes tx pool pool' (step >>= rest) (step' >>= rest') next := by
  apply Together.bind h
  rintro result after result' after' ⟨hkeeps, hok⟩
  exact Together.mono (hrest hkeeps hok)
    (fun _ _ _ _ hlast => ⟨hkeeps.trans hlast.1, hlast.2⟩) fun _ _ hlast => hkeeps.trans hlast

variable (h : like.Alike pool pool')
include h

theorem goes_pure {result : Result} {result' : Result'} (hok : ok result pool result' pool') :
    like.Goes tx pool pool' (pure result) (pure result') ok :=
  ⟨.refl h tx, hok⟩

theorem goes_throw (failure : Failure) :
    like.Goes tx pool pool' (throw failure : Action Result) (throw failure : Action Result') ok :=
  together_throw (.refl h tx)

theorem goes_lift {Value : Type} {result : Except Failure Value} {rest : Value → Action Next}
    {rest' : Value → Action Next'}
    (hrest : ∀ value, like.Goes tx pool pool' (rest value) (rest' value) next) :
    like.Goes tx pool pool' (lift result >>= rest) (lift result >>= rest') next :=
  together_lift (fun value _ => hrest value) (.refl h tx)

end Goes

theorem together_onPage {excused : Failure → Prop} {Result Result' : Type}
    {step : EStateM Failure Page Result} {step' : EStateM Failure Page Result'}
    {ok : Result → Pool → Result' → Pool → Prop} {fails : Pool → Pool → Prop} :
    Together excused (onPage ref step) pool (onPage ref' step') pool' ok fails ↔
      Together excused step (pool.page ref) step' (pool'.page ref')
        (fun result page result' page' =>
          ok result (pool.setPage ref page) result' (pool'.setPage ref' page'))
        (fun page page' => fails (pool.setPage ref page) (pool'.setPage ref' page')) := by
  simp only [Together, onPage]
  cases step (pool.page ref) <;> cases step' (pool'.page ref') <;> rfl

section Pages

variable (hlaw : like.Lawful) (h : like.Alike pool pool')
include hlaw h

theorem keeps_rewritten (hpeek : pool.cache.peek? id = some ref)
    (hpeek' : pool'.cache.peek? id = some ref')
    (howner : OwnedBy (pool.locks.table.records id) tx) {page page' : Page}
    (hpages : Page.BothRewritten tx (pool.page ref) (pool'.page ref') page page') :
    like.Keeps tx pool pool' (pool.setPage ref page) (pool'.setPage ref' page') := by
  obtain ⟨data, hlength, rfl, rfl⟩ := hpages
  have howner' : OwnedBy (pool'.locks.table.records id) tx := h.locks_eq ▸ howner
  have hlength' : data.length = (pool'.page ref').data.length := by
    rw [hlength, h.data_eq hpeek hpeek']
  have hleft := (evolves_rewritten h.left.toSound hpeek howner ⟨data, hlength, rfl⟩).1
  have hright := (evolves_rewritten h.right.toSound hpeek' howner' ⟨data, hlength', rfl⟩).1
  refine ⟨⟨hleft.coherent h.left, hright.coherent h.right, ?_, hlaw.written h hpeek hpeek' tx data⟩,
    hleft, hright⟩
  rw [view_setPage_touch h.left.toSound hpeek, view_setPage_touch h.right.toSound hpeek', h.view_eq]

/-- An owner rewrites its page in both pools. -/
theorem goes_onPage {Result : Type} {step : EStateM Failure Page Result}
    (hpeek : pool.cache.peek? id = some ref) (hpeek' : pool'.cache.peek? id = some ref')
    (howner : OwnedBy (pool.locks.table.records id) tx)
    (hstep : Together like.Excused step (pool.page ref) step (pool'.page ref')
      (fun result page result' page' => result' = result ∧
        Page.BothRewritten tx (pool.page ref) (pool'.page ref') page page')
      (Page.BothLeft tx (pool.page ref) (pool'.page ref'))) :
    like.Goes tx pool pool' (onPage ref step) (onPage ref' step)
      fun result after result' after' => result' = result ∧ after.cache.peek? id = some ref ∧
        after'.cache.peek? id = some ref' ∧ after.Modified tx ref ∧ after'.Modified tx ref' := by
  unfold Goes
  rw [together_onPage]
  apply hstep.mono
  · rintro result page result' page' ⟨hresult, hpages⟩
    have hkeeps := keeps_rewritten hlaw h hpeek hpeek' howner hpages
    refine ⟨hkeeps, hresult, hpeek, hpeek', ?_⟩
    obtain ⟨data, _, rfl, rfl⟩ := hpages
    refine ⟨⟨id, hpeek, howner, ?_⟩, id, hpeek', h.locks_eq ▸ howner, ?_⟩
    · rw [page_setPage_self h.left.toSound hpeek]
      rfl
    · rw [page_setPage_self h.right.toSound hpeek']
      rfl
  · rintro page page' (⟨rfl, rfl⟩ | hpages)
    · rw [setPage_page, setPage_page]
      exact .refl h tx
    · exact keeps_rewritten hlaw h hpeek hpeek' howner hpages

theorem keeps_marked (hpeek : pool.cache.peek? id = some ref)
    (hpeek' : pool'.cache.peek? id = some ref')
    (howner : OwnedBy (pool.locks.table.records id) tx)
    (himage : (pool.page ref).beforeImage.isSome) (himage' : (pool'.page ref').beforeImage.isSome) :
    like.Keeps tx pool pool' (pool.setPage ref ((pool.page ref).mark tx true))
      (pool'.setPage ref' ((pool'.page ref').mark tx true)) := by
  have howner' : OwnedBy (pool'.locks.table.records id) tx := h.locks_eq ▸ howner
  have hleft : Evolves .change tx pool (pool.setPage ref ((pool.page ref).mark tx true)) :=
    .setPage h.left.toSound hpeek (h.left.named hpeek)
      (.single (.mark rfl (standing_cached hpeek) howner himage)) fun hquiet => absurd rfl hquiet
  have hright : Evolves .change tx pool' (pool'.setPage ref' ((pool'.page ref').mark tx true)) :=
    .setPage h.right.toSound hpeek' (h.right.named hpeek')
      (.single (.mark rfl (standing_cached hpeek') howner' himage')) fun hquiet => absurd rfl hquiet
  refine ⟨⟨hleft.coherent h.left, hright.coherent h.right, ?_, hlaw.marked h hpeek hpeek' tx⟩,
    hleft, hright⟩
  rw [view_setPage_mark h.left.toSound hpeek, view_setPage_mark h.right.toSound hpeek', h.view_eq]

theorem keeps_used (id : PageId) :
    like.Keeps tx pool pool' (pool.used id) (pool'.used id) := by
  have hleft : Evolves .access tx pool (pool.used id) := evolves_used h.left id
  have hright : Evolves .access tx pool' (pool'.used id) := evolves_used h.right id
  refine ⟨⟨hleft.coherent h.left, hright.coherent h.right, ?_, hlaw.used h id⟩, hleft.weaken,
    hright.weaken⟩
  rw [view_used h.left, view_used h.right, h.view_eq]

end Pages

theorem holdDirty_cons (hsound : pool.Sound) (hpeek : pool.cache.peek? id = some ref)
    (howner : OwnedBy (pool.locks.table.records id) tx) (rest : List PageRef) :
    holdDirty tx (ref :: rest) pool =
      holdDirty tx rest ((pool.setPage ref ((pool.page ref).mark tx true)).used id) := by
  have hpeek' : (pool.setPage ref ((pool.page ref).mark tx true)).cache.peek? id = some ref := hpeek
  refine eq_of_ends_iff fun ok fails => ?_
  rw [ends_holdDirty_cons, hsound.named hpeek, if_pos (LockTable.mode?_eq_exclusive_iff.2 howner),
    Ends, cachePage_of_resident hpeek', used, Cache.get?_resident hpeek']

section Hold

variable (hlaw : like.Lawful)
include hlaw

/-- What a transaction has changed is held in both pools. -/
theorem holdDirty_alike (h : like.Alike pool pool') {refs refs' : List PageRef}
    (hrefs : List.Forall₂ (like.Objects pool pool') refs refs')
    (hleft : ∀ ref ∈ refs, pool.Modified tx ref) (hright : ∀ ref ∈ refs', pool'.Modified tx ref) :
    ∃ after after', holdDirty tx refs pool = .ok ⟨⟩ after ∧
      holdDirty tx refs' pool' = .ok ⟨⟩ after' ∧ like.Keeps tx pool pool' after after' := by
  induction refs generalizing pool pool' refs' with
  | nil =>
      cases hrefs
      exact ⟨pool, pool', rfl, rfl, .refl h tx⟩
  | cons ref rest ih =>
      obtain ⟨ref', rest', hobjects, hrest, rfl⟩ := List.forall₂_cons_left_iff.1 hrefs
      rw [List.forall_mem_cons] at hleft hright
      obtain ⟨id, hpeek, howner, himage⟩ := hleft.1
      obtain ⟨id', hpeek', howner', himage'⟩ := hright.1
      obtain rfl : id' = id := by
        rw [← h.left.named hpeek, ← h.right.named hpeek', hobjects.id_eq]
      have hmarked := keeps_marked hlaw h hpeek hpeek' howner himage himage'
      have hkeeps := hmarked.trans (keeps_used hlaw hmarked.alike id')
      rw [holdDirty_cons h.left.toSound hpeek howner, holdDirty_cons h.right.toSound hpeek' howner']
      obtain ⟨after, after', hrun, hrun', hafter⟩ := ih hkeeps.alike
        (hrest.imp fun _ _ hold => hkeeps.objects hold)
        (fun other hmem => hkeeps.left.modified h.left (hleft.2 other hmem))
        fun other hmem => hkeeps.right.modified h.right (hright.2 other hmem)
      exact ⟨after, after', hrun, hrun', hkeeps.trans hafter⟩

theorem hold_alike (h : like.Alike pool pool') (pooled : Bool) {refs refs' : List PageRef}
    (hrefs : List.Forall₂ (like.Objects pool pool') refs refs')
    (hleft : ∀ ref ∈ refs, pool.Modified tx ref) (hright : ∀ ref ∈ refs', pool'.Modified tx ref) :
    ∃ after after', hold pooled tx refs pool = .ok ⟨⟩ after ∧
      hold pooled tx refs' pool' = .ok ⟨⟩ after' ∧ like.Keeps tx pool pool' after after' := by
  unfold hold
  split
  · exact holdDirty_alike hlaw h hrefs hleft hright
  · exact ⟨pool, pool', rfl, rfl, .refl h tx⟩

end Hold

theorem Outcomes.answer {answer : Answer} (hplain : ∀ ref, answer ≠ .page ref)
    (tuple : Option Tuple) :
    like.Outcomes pool pool' ⟨.ok answer, tuple⟩ ⟨.ok answer, tuple⟩ where
  result := .same fun ref heq => hplain ref (Except.ok.inj heq)
  tuple_eq := rfl

section Stretches

variable {insertion : Insertion} {layout : Layout} {table : Table} {tuple : Tuple}
  {refs refs' : List PageRef}

section Reads

variable (h : like.Alike pool pool')
include h

theorem goes_getTable (number : UInt32) :
    like.Goes tx pool pool' (getTable number) (getTable number)
      fun found after found' after' => found' = found ∧ after = pool ∧ after' = pool' ∧
        pool.table? number = some found := by
  unfold Goes getTable
  rw [together_get, h.table?_eq]
  cases htable : pool.table? number with
  | none => exact goes_throw h _
  | some table => exact goes_pure h ⟨rfl, rfl, rfl, rfl⟩

theorem goes_pageCount (table : Table) :
    like.Goes tx pool pool' (pageCount table) (pageCount table)
      fun count after count' after' => count' = count ∧ after = pool ∧ after' = pool' := by
  have hcount : (pool'.volume table.volume).pageCount pool'.pageSize =
      (pool.volume table.volume).pageCount pool.pageSize := by
    have houtline : (pool'.volume table.volume).outline pool'.pageSize =
        (pool.volume table.volume).outline pool.pageSize := h.outline_eq table.volume
    rw [Volume.pageCount_eq, Volume.pageCount_eq, houtline, h.pageSize_eq]
  unfold Goes pageCount
  rw [together_get, hcount]
  cases (pool.volume table.volume).pageCount pool.pageSize with
  | error failure => exact goes_throw h failure
  | ok count => exact goes_pure h ⟨rfl, rfl, rfl⟩

theorem goes_startDelete (table : Table) (tuple : Tuple) (pooled : Bool) :
    like.Goes tx pool pool' (startDelete tx table tuple pooled)
      (startDelete tx table tuple pooled) fun step after step' after' =>
        like.Steps after after' step step' := by
  unfold startDelete
  cases tuple.rid with
  | none => exact goes_throw h _
  | some rid =>
      cases table.kind with
      | heap layout =>
          dsimp only
          split
          · exact goes_throw h _
          · exact goes_pure h (.ask (.same rfl))
      | stamps mode => exact goes_pure h (.ask (.same rfl))

omit h in
theorem steps_scanFrom (pool pool' : Pool) (table : Table) (layout : Layout) (index bound : Nat)
    (found : List Tuple) :
    like.Steps pool pool' (scanFrom tx table layout index bound found)
      (scanFrom tx table layout index bound found) := by
  unfold scanFrom
  split
  · exact .ask (.same rfl)
  · exact .done (.answer (by simp) none)

end Reads

section Changes

variable (hlaw : like.Lawful) (h : like.Alike pool pool')
include hlaw h

theorem goes_releaseLock (hreader : ¬OwnedBy (pool.locks.table.records id) tx) :
    like.Goes tx pool pool' (releaseLock tx id) (releaseLock tx id) fun _ after _ _ =>
      after.tables = pool.tables ∧ after.stored? = pool.stored? := by
  have hreader' : ¬OwnedBy (pool'.locks.table.records id) tx := h.locks_eq ▸ hreader
  have hrun : ∀ pool : Pool, releaseLock tx id pool =
      .ok (pool.locks.release tx id).1 { pool with locks := (pool.locks.release tx id).2 } :=
    fun _ => rfl
  obtain ⟨⟨hleft, _⟩, _⟩ := (ends_releaseLock h.left hreader).of_ok (hrun pool)
  obtain ⟨⟨hright, _⟩, _⟩ := (ends_releaseLock h.right hreader').of_ok (hrun pool')
  have hlocks := hlaw.withLocks h (pool.locks.release tx id).2
  unfold Goes Together
  rw [h.locks_eq] at hright
  rw [hrun, hrun, h.locks_eq]
  refine ⟨⟨⟨hleft.coherent h.left, hright.coherent h.right, ?_, hlocks⟩, hleft, hright⟩, rfl, rfl⟩
  exact congrArg (View.withLocks · (pool.locks.release tx id).2) h.view_eq

theorem goes_allocatePage (htable : pool.Registered table) (hroom : pool.HasRoom table) :
    like.Goes tx pool pool' (allocatePage table) (allocatePage table)
      fun page _ page' _ => page' = page := by
  have htable' : pool'.Registered table := (h.table?_eq table.id).trans htable
  have hroom' := (hasRoom_of_view h.view_eq hroom).volume htable'
  have hroom := hroom.volume htable
  have hleft := (ends_allocatePage_appends h.left htable hroom).and
    (@ends_allocatePage pool h.left tx table htable hroom)
  have hright := (ends_allocatePage_appends h.right htable' hroom').and
    (@ends_allocatePage pool' h.right tx table htable' hroom')
  rw [h.view_eq, h.pageSize_eq] at hright
  refine Together.of_ends hleft hright ?_ ?_ ?_ ?_
  · rintro page after page' after' ⟨⟨rfl, happends, hview, _⟩, _, hkept⟩
      ⟨⟨rfl, happends', hview', _⟩, _, hkept'⟩
    refine ⟨⟨⟨hkept.evolves.coherent h.left, hkept'.evolves.coherent h.right, ?_,
      hlaw.appended h happends happends'⟩, hkept.evolves, hkept'.evolves⟩, rfl⟩
    rw [hview, hview']
  · rintro failure after failure' after' ⟨⟨hstill, rfl, _⟩, hkept⟩ ⟨⟨hstill', rfl, _⟩, hkept'⟩
    refine .inl ⟨rfl, ⟨hkept.evolves.coherent h.left, hkept'.evolves.coherent h.right, ?_,
      hlaw.still h hstill hstill'⟩, hkept.evolves, hkept'.evolves⟩
    rw [hstill.view_eq, hstill'.view_eq, h.view_eq]
  · rintro failure after page' after' ⟨⟨_, _, hempty⟩, _⟩ ⟨⟨_, _, _, hfile, hsize⟩, _⟩
    exact absurd (hempty hfile) hsize
  · rintro page after failure' after' ⟨⟨_, _, _, hfile, hsize⟩, _⟩ ⟨⟨_, _, hempty⟩, _⟩
    exact absurd (hempty hfile) hsize

theorem goes_inspectFrom (htable : pool.Registered insertion.table)
    (hroom : pool.HasRoom insertion.table) (layout : Layout) (index bound : Nat) :
    like.Goes tx pool pool' (inspectFrom tx insertion layout index bound)
      (inspectFrom tx insertion layout index bound) fun step after step' after' =>
        like.Steps after after' step step' := by
  unfold inspectFrom
  split
  · dsimp only
    unfold Goes
    rw [together_get, h.locks_eq]
    exact goes_pure h (.ask (.same rfl))
  · refine (goes_allocatePage hlaw h htable hroom).bind ?_
    rintro page after _ after' hkeeps rfl
    exact goes_pure hkeeps.alike (.ask (.same rfl))

theorem goes_hold (pooled : Bool) (hrefs : List.Forall₂ (like.Objects pool pool') refs refs')
    (hleft : ∀ ref ∈ refs, pool.Modified tx ref) (hright : ∀ ref ∈ refs', pool'.Modified tx ref) :
    like.Goes tx pool pool' (hold pooled tx refs) (hold pooled tx refs') fun _ _ _ _ => True := by
  obtain ⟨after, after', hrun, hrun', hkeeps⟩ := hold_alike hlaw h pooled hrefs hleft hright
  unfold Goes Together
  rw [hrun, hrun']
  exact ⟨hkeeps, trivial⟩

theorem goes_stampFrom (mode : LockMode) (index : Nat)
    (hrefs : List.Forall₂ (like.Objects pool pool') refs refs')
    (hleft : ∀ ref ∈ refs, pool.Modified tx ref) (hright : ∀ ref ∈ refs', pool'.Modified tx ref)
    (cells : List Cell) :
    like.Goes tx pool pool' (stampFrom tx insertion mode index refs cells)
      (stampFrom tx insertion mode index refs' cells) fun step after step' after' =>
        like.Steps after after' step step' := by
  unfold stampFrom
  cases cells with
  | nil =>
      refine (goes_hold hlaw h insertion.pooled hrefs hleft hright).bind ?_
      intro _ after _ after' hkeeps _
      exact goes_pure hkeeps.alike (.done (.answer (by simp) _))
  | cons cell rest => exact goes_pure h (.ask (.stamp hrefs))

theorem goes_insertion_start (htable : pool.Registered insertion.table)
    (hroom : insertion.table.layout?.isSome → pool.HasRoom insertion.table) :
    like.Goes tx pool pool' (insertion.start tx) (insertion.start tx)
      fun step after step' after' => like.Steps after after' step step' := by
  unfold Insertion.start
  cases hkind : insertion.table.kind with
  | heap layout =>
      have hheap : insertion.table.layout?.isSome := by rw [Table.layout?, hkind]; rfl
      refine (goes_pageCount h insertion.table).bind ?_
      rintro count _ _ _ _ ⟨rfl, rfl, rfl⟩
      exact goes_inspectFrom hlaw h htable (hroom hheap) layout 0 _
  | stamps mode => exact goes_stampFrom hlaw h mode 0 .nil (by simp) (by simp) _

/-- A call gets as far on both pools. -/
theorem goes_start {call : Call} (hadmits : pool.Admits call) (hroom : pool.HasRoomFor call) :
    like.Goes call.tx pool pool' call.start call.start
      fun step after step' after' => like.Steps after after' step step' := by
  cases call with
  | acquire tx page mode => exact goes_pure h (.ask (.same rfl))
  | get tx page mode => exact goes_pure h (.ask (.same rfl))
  | insert tx number tuple =>
      refine (goes_getTable h number).bind ?_
      rintro _ _ table _ _ ⟨rfl, rfl, rfl, htable⟩
      exact @goes_insertion_start _ _ _ _ ⟨table, tuple, true⟩ hlaw h
        (by rwa [Registered, table?_id htable]) fun hheap => hroom _ (grown?_insert htable hheap)
  | delete tx tuple =>
      simp only [Call.start]
      cases tuple.rid with
      | none => exact goes_throw h _
      | some rid =>
          refine (goes_getTable h rid.page.table).bind ?_
          rintro _ _ table _ _ ⟨rfl, rfl, rfl, _⟩
          exact goes_startDelete h table tuple true
  | insertInto tx table tuple =>
      exact @goes_insertion_start _ _ _ _ ⟨table, tuple, false⟩ hlaw h hadmits
        fun hheap => hroom _ (grown?_insertInto hheap)
  | deleteFrom tx table tuple => exact goes_startDelete h table tuple false
  | scan tx table =>
      simp only [Call.start]
      cases table.layout? with
      | none => exact goes_pure h (.done (.answer (by simp) none))
      | some layout =>
          refine (goes_pageCount h table).bind ?_
          rintro count _ _ _ _ ⟨rfl, rfl, rfl⟩
          exact goes_pure h (steps_scanFrom ..)

section Proceed

variable {insertion : Insertion} {call : Call} (hpeek : pool.cache.peek? id = some ref)
  (hpeek' : pool'.cache.peek? id = some ref')
include hpeek hpeek'

theorem goes_place (howner : OwnedBy (pool.locks.table.records id) tx) (insertion : Insertion)
    (layout : Layout) :
    like.Goes tx pool pool' (insertion.place tx layout ref) (insertion.place tx layout ref')
      fun step after step' after' => like.Steps after after' step step' := by
  unfold Insertion.place
  refine (goes_onPage hlaw h hpeek hpeek' howner (Layout.together_insert (h.id_eq hpeek hpeek')
    (h.data_eq hpeek hpeek') tx insertion.tuple)).bind ?_
  rintro placed middle _ middle' hmiddle ⟨rfl, hpeek, hpeek', hmodified, hmodified'⟩
  have hobjects := hmiddle.alike.objects hpeek hpeek' hlaw
  obtain ⟨after, after', hrun, hrun', hkeeps⟩ := hold_alike hlaw hmiddle.alike insertion.pooled
    (.cons hobjects .nil) (by simpa using hmodified) (by simpa using hmodified')
  have hobserve : ∀ {refs pool after}, hold insertion.pooled tx refs pool = .ok ⟨⟩ after →
      observing (hold insertion.pooled tx refs) pool = .ok (.ok ⟨⟩) after := fun hhold => by
    simp only [observing, hhold]
  unfold Goes Together
  simp only [bind, EStateM.bind, hobserve hrun, hobserve hrun']
  exact ⟨hkeeps, .done (.answer (by simp) _)⟩

theorem goes_rewrite_answer {step : EStateM Failure Page Unit} (pooled : Bool)
    (howner : OwnedBy (pool.locks.table.records id) tx)
    (hstep : Together like.Excused step (pool.page ref) step (pool'.page ref')
      (fun result page result' page' => result' = result ∧
        Page.BothRewritten tx (pool.page ref) (pool'.page ref') page page')
      (Page.BothLeft tx (pool.page ref) (pool'.page ref'))) :
    like.Goes tx pool pool' (do onPage ref step; hold pooled tx [ref]; return Step.answer .unit)
      (do onPage ref' step; hold pooled tx [ref']; return Step.answer .unit)
      fun step after step' after' => like.Steps after after' step step' := by
  refine (goes_onPage hlaw h hpeek hpeek' howner hstep).bind ?_
  rintro _ middle _ middle' hmiddle ⟨_, hpeek, hpeek', hmodified, hmodified'⟩
  have hobjects := hmiddle.alike.objects hpeek hpeek' hlaw
  refine (goes_hold hlaw hmiddle.alike pooled (.cons hobjects .nil) (by simpa using hmodified)
    (by simpa using hmodified')).bind ?_
  intro _ after _ after' hafter _
  exact goes_pure hafter.alike (.done (.answer (by simp) none))

theorem goes_stamp (howner : OwnedBy (pool.locks.table.records id) tx) (mode : LockMode)
    (index : Nat) (chunk : Bytes) (cells : List Cell)
    (hrefs : List.Forall₂ (like.Objects pool pool') refs refs')
    (hleft : ∀ ref ∈ refs, pool.Modified tx ref) (hright : ∀ ref ∈ refs', pool'.Modified tx ref) :
    like.Goes tx pool pool'
      (do onPage ref (Page.write tx 0 chunk); stampFrom tx insertion mode index (refs ++ [ref]) cells)
      (do
        onPage ref' (Page.write tx 0 chunk)
        stampFrom tx insertion mode index (refs' ++ [ref']) cells)
      fun step after step' after' => like.Steps after after' step step' := by
  refine (goes_onPage hlaw h hpeek hpeek' howner ((Page.together_write (h.data_eq hpeek hpeek') tx 0
    chunk).mono (fun _ _ _ _ hpages => ⟨rfl, hpages⟩) fun _ _ hpages => .inr hpages)).bind ?_
  rintro _ middle _ middle' hmiddle ⟨_, hpeek, hpeek', hmodified, hmodified'⟩
  have hobjects := hmiddle.alike.objects hpeek hpeek' hlaw
  apply goes_stampFrom hlaw hmiddle.alike
  · exact List.rel_append (hrefs.imp fun _ _ hold => hmiddle.objects hold) (.cons hobjects .nil)
  · rintro other hmem
    rcases List.mem_append.1 hmem with hold | hnew
    · exact hmiddle.left.modified h.left (hleft other hold)
    · exact List.mem_singleton.1 hnew ▸ hmodified
  · rintro other hmem
    rcases List.mem_append.1 hmem with hold | hnew
    · exact hmiddle.right.modified h.right (hright other hold)
    · exact List.mem_singleton.1 hnew ▸ hmodified'

/-- An operation that has got its lock and its page gets as far on both pools. -/
theorem goes_proceed {operation operation' : Operation} (hop : operation.Entitled pool call)
    (hop' : operation'.Entitled pool' call) (hrequest : operation'.request = operation.request)
    (hgoal : like.Goals pool pool' operation.goal operation'.goal)
    (hpage : operation.request.page = id) (hroom : pool.HasRoomFor call) :
    like.Goes call.tx pool pool' (operation.proceed ref) (operation'.proceed ref')
      fun step after step' after' => like.Steps after after' step step' := by
  obtain ⟨⟨tx, page, mode⟩, goal⟩ := operation
  obtain ⟨request, goal'⟩ := operation'
  obtain ⟨⟨htx, hfits⟩, hheld, howned, hreader⟩ := hop
  obtain ⟨⟨_, hfits'⟩, _⟩ := hop'
  simp only at htx hpage hrequest hheld howned hreader hfits hfits' hgoal
  subst hpage htx hrequest
  have hdata := h.data_eq hpeek hpeek'
  have hid := h.id_eq hpeek hpeek'
  unfold Operation.proceed
  cases hgoal with
  | stamp hchanged =>
      exact goes_stamp hlaw h hpeek hpeek' (howned hfits.2.1) mode _ _ _ hchanged hfits.2.2
        hfits'.2.2
  | same hplain =>
      cases goal with
      | lock => exact goes_pure h (.done (.answer (by simp) none))
      | page => exact goes_pure h (.done ⟨.page (h.objects hpeek hpeek' hlaw) hdata, rfl⟩)
      | insert insertion layout placement =>
          obtain ⟨hgrown, htable, hmode⟩ := hfits
          have hlast := hroom _ hgrown
          cases placement with
          | inspect index bound held =>
              dsimp only
              unfold Goes
              rw [together_get, Layout.freeSlots_eq_of_data hdata]
              refine goes_lift h fun free => ?_
              split
              · exact goes_pure h (.ask (.same rfl))
              split
              · next hfresh =>
                refine (goes_releaseLock hlaw h (hreader (by simpa [Goal.drops] using hfresh))).bind ?_
                rintro _ middle _ middle' hmiddle ⟨_, hstored⟩
                rw [HasRoom, ← hstored] at hlast
                exact goes_inspectFrom hlaw hmiddle.alike (hmiddle.left.registered htable) hlast
                  layout (index + 1) bound
              · exact goes_inspectFrom hlaw h htable hlast layout (index + 1) bound
          | upgrade => exact goes_place hlaw h hpeek hpeek' (howned hmode) insertion layout
          | append => exact goes_place hlaw h hpeek hpeek' (howned hmode) insertion layout
      | stamp insertion index cell rest changed =>
          cases hplain
          exact goes_stamp hlaw h hpeek hpeek' (howned hfits.2.1) mode _ _ _ .nil hfits.2.2 hfits'.2.2
      | delete layout tuple pooled =>
          exact goes_rewrite_answer hlaw h hpeek hpeek' pooled (howned hfits.2)
            ((Layout.together_delete hid hdata call.tx tuple).mono
              (fun _ _ _ _ hpages => ⟨rfl, hpages⟩) fun _ _ hpages => hpages)
      | unstamp pooled =>
          exact goes_rewrite_answer hlaw h hpeek hpeek' pooled (howned hfits.2)
            ((Page.together_write hdata call.tx 0 [0]).mono (fun _ _ _ _ hpages => ⟨rfl, hpages⟩)
              fun _ _ hpages => .inr hpages)
      | scan table layout index bound found =>
          dsimp only
          unfold Goes
          rw [together_get, Layout.tuples_eq_of_data hid hdata]
          exact goes_lift h fun tuples => goes_pure h (steps_scanFrom ..)

end Proceed

/-- Both pools find a page, or neither does. -/
theorem together_fetch (tx : TxId) (id : PageId) :
    Together (fun _ => False) (fetch id) pool (fetch id) pool'
      (fun fetched after fetched' after' => like.Keeps tx pool pool' after after' ∧
        after.view = pool.view ∧ after.Provides id fetched ∧ after'.Provides id fetched' ∧
        after.cache = (pool.used id).cache ∧ after'.cache = (pool'.used id).cache)
      (like.Keeps tx pool pool') := by
  have hused : like.Keeps tx pool pool' _ _ := keeps_used hlaw h id
  have hleft := (ends_fetch h.left tx id).and (ends_fetch_still h.left id)
  have hright := (ends_fetch h.right tx id).and (ends_fetch_still h.right id)
  have hkeeps : ∀ {after after'}, Evolves .access tx pool after → Evolves .access tx pool' after' →
      (pool.used id).Still after → (pool'.used id).Still after' →
      like.Keeps tx pool pool' after after' := fun hevolves hevolves' hstill hstill' =>
    ⟨⟨hevolves.coherent h.left, hevolves'.coherent h.right, by
      rw [hstill.view_eq, hstill'.view_eq, hused.alike.view_eq],
      hlaw.still hused.alike hstill hstill'⟩, hevolves.weaken, hevolves'.weaken⟩
  -- what is in the cache is in storage too, so storage alone decides whether there is a page
  have hfound : ∀ {pool after : Pool} {fetched}, after.Coherent → (pool.used id).Still after →
      after.Provides id fetched → pool.stored? id ≠ none := by
    rintro pool after fetched hafter hstill hprovides hnone
    have hstored : after.stored? id = none := (hstill.stored?_eq id).trans hnone
    cases fetched with
    | resident ref =>
        have hcached := (hafter.coherent id).cached_eq_none hstored
        rw [standing_cached hprovides] at hcached
        cases hcached
    | loaded page =>
        obtain ⟨_, data, hdata, _⟩ := hprovides
        rw [hstored] at hdata
        cases hdata
  refine Together.of_ends hleft hright ?_ ?_ ?_ ?_
  · rintro fetched after fetched' after' ⟨⟨hevolves, _, hprovides⟩, hstill⟩
      ⟨⟨hevolves', _, hprovides'⟩, hstill'⟩
    exact ⟨hkeeps hevolves hevolves' hstill hstill', hstill.view_eq.trans (view_used h.left id),
      hprovides, hprovides', hstill.cache_eq, hstill'.cache_eq⟩
  · rintro failure after failure' after' ⟨hevolves, hstill, _, rfl⟩ ⟨hevolves', hstill', _, rfl⟩
    exact .inl ⟨by rw [h.view_eq], hkeeps hevolves hevolves' hstill hstill'⟩
  · rintro failure after fetched' after' ⟨_, _, hnone, _⟩ ⟨⟨hevolves', _, hprovides'⟩, hstill'⟩
    have hsome := (h.isSome_stored? id).1
      (Option.isSome_iff_ne_none.2 (hfound (hevolves'.coherent h.right) hstill' hprovides'))
    rw [hnone] at hsome
    cases hsome
  · rintro fetched after failure' after' ⟨⟨hevolves, _, hprovides⟩, hstill⟩ ⟨_, _, hnone, _⟩
    have hsome := (h.isSome_stored? id).2
      (Option.isSome_iff_ne_none.2 (hfound (hevolves.coherent h.left) hstill hprovides))
    rw [hnone] at hsome
    cases hsome

theorem goes_install {data : Bytes}
    (hstored : pool.cache.peek? id = none → pool.stored? id = some data)
    (hstored' : pool'.cache.peek? id = none → pool'.stored? id = some data) :
    like.Goes tx pool pool' (install (Page.load id data)) (install (Page.load id data))
      fun ref after ref' after' => after.view = pool.view ∧ after.cache.peek? id = some ref ∧
        after'.cache.peek? id = some ref' := by
  refine (hlaw.installed h hstored hstored').and_ends (ends_install_view h.left tx hstored)
    (ends_install_view h.right tx hstored') ?_ ?_
  · rintro ref after ref' after' halso ⟨hevolves, _, hview, hpeek⟩
      ⟨hevolves', _, hview', hpeek'⟩
    refine ⟨⟨⟨hevolves.coherent h.left, hevolves'.coherent h.right, ?_, halso⟩, hevolves.weaken,
      hevolves'.weaken⟩, hview, hpeek, hpeek'⟩
    rw [hview, hview', h.view_eq]
  · rintro failure after failure' after' _ ⟨rfl, _⟩ ⟨rfl, _⟩
    exact .refl h tx

/-- An operation that has got its lock goes on with a page that was read from storage. -/
theorem goes_arrive {call : Call} {operation operation' : Operation}
    (hop : operation.Entitled pool call) (hop' : operation'.Entitled pool' call)
    (hrequest : operation'.request = operation.request)
    (hgoal : like.Goals pool pool' operation.goal operation'.goal)
    (hpage : operation.request.page = id) (hroom : pool.HasRoomFor call) {data : Bytes}
    (hstored : pool.cache.peek? id = none → pool.stored? id = some data)
    (hstored' : pool'.cache.peek? id = none → pool'.stored? id = some data) :
    like.Goes call.tx pool pool' (install (Page.load id data) >>= operation.proceed)
      (install (Page.load id data) >>= operation'.proceed)
      fun step after step' after' => like.Steps after after' step step' := by
  refine (goes_install hlaw h hstored hstored').bind ?_
  rintro ref middle ref' middle' hmiddle ⟨hview, hpeek, hpeek'⟩
  have hview' : middle'.view = pool'.view := by
    rw [hmiddle.alike.view_eq, hview, h.view_eq]
  exact goes_proceed hlaw hmiddle.alike hpeek hpeek'
    (hop.of_locks_eq hmiddle.left h.left (congrArg View.locks hview))
    (hop'.of_locks_eq hmiddle.right h.right (congrArg View.locks hview')) hrequest
    (hgoal.grows hmiddle.left.grows hmiddle.right.grows) hpage
    (hasRoomFor_of_view hview hroom)

end Changes

end Stretches

end Likeness

end PagePool
