import Mathlib
import PagePool.Proofs.Pool.Custody

/-!
# The pool's part of a change

Whoever changes a heap table may leave it to the pool to hold the page that is changed, or run the
table's own operation and do without. It comes to the same: the operation has marked the page on
behalf of its transaction, the lock that it was granted is exclusive, and the page was looked up
just before, so it is in the cache and in front of it. Nothing is left for the pool to do, and as it
puts no page there that was not there already, a full cache is no obstacle.
-/

namespace PagePool

open LockRecord Pool

/-- The table's own operation, which leaves its page to no pool. -/
def Goal.alone : Goal → Goal
  | .insert insertion layout placement =>
      .insert { insertion with pooled := false } layout placement
  | .delete layout tuple _ => .delete layout tuple false
  | goal => goal

def Operation.alone (operation : Operation) : Operation :=
  { operation with goal := operation.goal.alone }

def Step.alone : Step → Step
  | .ask operation => .ask operation.alone
  | .done outcome => .done outcome

/-- A goal that changes the page it asks for: only these leave something to the pool. -/
def Goal.Changes : Goal → Prop
  | .insert _ _ (.inspect ..) => False
  | .insert .. | .delete .. => True
  | _ => False

namespace Pool

variable {pool after : Pool} {tx : TxId} {id : PageId} {ref : PageRef} {page : Page}

/-- A page is in front of the cache, under an exclusive lock of a transaction. -/
structure AtHand (pool : Pool) (tx : TxId) (id : PageId) (ref : PageRef) : Prop where
  peek : pool.cache.peek? id = some ref
  front : pool.cache.promote id ref = pool.cache
  inside : ref < pool.frames.next
  named : (pool.page ref).id = id
  owned : OwnedBy (pool.locks.table.records id) tx

theorem AtHand.rewritten (h : pool.AtHand tx id ref) (hpage : (pool.page ref).Rewritten tx page) :
    (pool.setPage ref page).AtHand tx id ref ∧ ((pool.setPage ref page).page ref).dirty = some tx := by
  have hsame : (pool.setPage ref page).page ref = page := by
    rw [page_setPage, if_pos ⟨rfl, h.inside⟩]
  obtain ⟨data, _, rfl⟩ := hpage
  refine ⟨⟨h.peek, h.front, ?_, ?_, h.owned⟩, ?_⟩
  · rw [next_setPage]
    exact h.inside
  · rw [hsame]
    exact h.named
  · rw [hsame]
    rfl

/-- The pool finds the page as it wants it to be. -/
theorem AtHand.hold (h : pool.AtHand tx id ref) (hdirty : (pool.page ref).dirty = some tx)
    (pooled : Bool) : hold pooled tx [ref] pool = .ok () pool := by
  have hmark : (pool.page ref).mark tx true = pool.page ref := by
    rw [Page.mark, if_pos rfl, ← hdirty]
  have hmode : pool.locks.table.mode? tx id = some .exclusive :=
    LockTable.mode?_eq_exclusive_iff.2 h.owned
  cases pooled with
  | false => rfl
  | true =>
      change holdDirty tx [ref] pool = _
      rw [← ends_iff_eq, ends_holdDirty_cons, h.named, if_pos hmode, hmark, setPage_page, Ends,
        cachePage_of_resident h.peek, h.front]
      exact ⟨rfl, rfl⟩

/-- So it is behind any change of the page. -/
theorem AtHand.ends_change {Result : Type} {step : EStateM Failure Page Result}
    {fails : Failure → Page → Prop} (h : pool.AtHand tx id ref)
    (hstep : Ends step (pool.page ref) (fun _ after => (pool.page ref).Rewritten tx after) fails) :
    Ends (onPage ref step) pool
      (fun _ after => ∀ pooled, PagePool.hold pooled tx [ref] after = .ok () after)
      fun _ _ => True := by
  rw [PagePool.ends_onPage]
  refine hstep.mono (fun _ page hpage => ?_) fun _ _ _ => trivial
  obtain ⟨hat, hdirty⟩ := h.rewritten hpage
  exact hat.hold hdirty

section Arrival

variable {regime : Regime} (h : pool.Tidy regime)
include h

theorem Tidy.atHand_fetch (hrun : fetch id pool = .ok (.resident ref) after)
    (howner : OwnedBy (pool.locks.table.records id) tx) : after.AtHand tx id ref := by
  have hfront : Ends (fetch id) pool
      (fun fetched after => ∀ ref, fetched = .resident ref →
        after.cache.promote id ref = after.cache) fun _ _ => True := by
    refine ends_fetch_iff.2 ⟨fun found _ ref hsame => ?_, fun _ => ?_⟩
    · rw [Fetched.resident.inj hsame]
      exact Cache.promote_promote ..
    · refine (ends_getTable id.table pool).mono ?_ fun _ _ _ => trivial
      rintro table _ ⟨rfl, _⟩
      rw [ends_readStored_iff]
      exact (Volume.ends_readPage_lasts ..).mono (fun _ _ _ _ => nofun) fun _ _ _ => trivial
  obtain ⟨⟨hdrifts, hlocks, hpeek⟩, hfront⟩ :=
    ((h.ends_fetch tx (fun _ => False) id).and hfront).of_ok hrun
  exact ⟨hpeek, hfront ref rfl, hdrifts.tidy.inside hpeek, hdrifts.tidy.named hpeek,
    hlocks ▸ howner⟩

theorem Tidy.atHand_install (hpage : pool.Reads regime id page)
    (hrun : install page pool = .ok ref after)
    (howner : OwnedBy (pool.locks.table.records id) tx) : after.AtHand tx id ref := by
  have hfront : Ends (install page) pool
      (fun ref after => after.cache.promote page.id ref = after.cache) fun _ _ => True :=
    ends_install_iff.2 ⟨fun _ _ => Cache.promote_promote .., fun _ =>
      ends_cachePage_iff.2 ⟨fun _ _ hput => Cache.promote_of_put hput, fun _ _ => trivial⟩⟩
  obtain ⟨⟨hdrifts, hlocks, hpeek⟩, hfront⟩ :=
    ((h.ends_install tx (fun _ => False) hpage).and hfront).of_ok hrun
  obtain ⟨_, data, _, rfl⟩ := hpage
  exact ⟨hpeek, hfront, hdrifts.tidy.inside hpeek, hdrifts.tidy.named hpeek, hlocks ▸ howner⟩

end Arrival

end Pool

/-- Two ends of a stretch: they are the same, but that the one asks for a lock on behalf of the
pool and the other on behalf of the table. -/
inductive Continues : EStateM.Result Failure Pool Step → EStateM.Result Failure Pool Step → Prop
  where
  | same (result : EStateM.Result Failure Pool Step) : Continues result result
  | ask (operation : Operation) (pool : Pool) :
      Continues (.ok (.ask operation) pool) (.ok (.ask operation.alone) pool)

namespace Continues

variable {pool : Pool} {tx : TxId} {id : PageId} {ref : PageRef}

theorem of_eq {result result' : EStateM.Result Failure Pool Step} (h : result' = result) :
    Continues result result' :=
  h ▸ .same result

theorem bind {Result : Type} {step : Action Result} {rest rest' : Result → Action Step}
    (h : ∀ result after, step pool = .ok result after →
      Continues (rest result after) (rest' result after)) :
    Continues ((step >>= rest) pool) ((step >>= rest') pool) := by
  simp only [Bind.bind, EStateM.bind]
  cases hrun : step pool with
  | ok result after => exact h result after hrun
  | error failure after => exact .same _

theorem inspectFrom (tx : TxId) (insertion : Insertion) (layout : Layout) (index bound : Nat)
    (pool : Pool) :
    Continues (inspectFrom tx insertion layout index bound pool)
      (PagePool.inspectFrom tx { insertion with pooled := false } layout index bound pool) := by
  unfold PagePool.inspectFrom
  split
  · exact .bind fun _ _ _ => .ask _ _
  · exact .bind fun _ _ _ => .ask _ _

/-- A tuple is put onto a page that is at hand. -/
theorem place (h : pool.AtHand tx id ref) (insertion : Insertion) (layout : Layout) :
    Continues (insertion.place tx layout ref pool)
      (Insertion.place { insertion with pooled := false } tx layout ref pool) := by
  unfold Insertion.place
  refine .bind fun placed after hrun => .of_eq ?_
  have hheld := (h.ends_change (layout.ends_insert tx _ insertion.tuple)).of_ok hrun
  simp only [Bind.bind, EStateM.bind, observing, hheld]

theorem delete (h : pool.AtHand tx id ref) (layout : Layout) (tuple : Tuple) (pooled : Bool) :
    Continues
      ((do
        onPage ref (layout.delete tx tuple)
        hold pooled tx [ref]
        return Step.answer .unit : Action Step) pool)
      ((do
        onPage ref (layout.delete tx tuple)
        hold false tx [ref]
        return Step.answer .unit : Action Step) pool) := by
  refine .bind fun _ after hrun => .of_eq ?_
  have hheld := (h.ends_change (layout.ends_delete tx _ tuple)).of_ok hrun
  simp only [Bind.bind, EStateM.bind, hheld]

/-- An operation goes on with its page as the table's own operation does. -/
theorem proceed {operation : Operation}
    (h : operation.goal.Changes → pool.AtHand operation.request.tx operation.request.page ref) :
    Continues (operation.proceed ref pool) (operation.alone.proceed ref pool) := by
  obtain ⟨⟨tx, page, mode⟩, goal⟩ := operation
  cases goal with
  | insert insertion layout placement =>
      cases placement with
      | inspect index bound held =>
          refine .bind fun _ _ _ => .bind fun free _ _ => ?_
          dsimp only
          split
          · exact .ask _ _
          · cases held with
            | true => exact .inspectFrom tx insertion layout (index + 1) bound _
            | false => exact .bind fun _ after _ =>
                .inspectFrom tx insertion layout (index + 1) bound after
      | upgrade => exact .place (h trivial) insertion layout
      | append => exact .place (h trivial) insertion layout
  | delete layout tuple pooled => exact .delete (h trivial) layout tuple pooled
  | _ => exact .same _

/-- If the table's own operation has ended well, the pool has nothing to add. -/
theorem held_of_done {operation : Operation} (hchanges : operation.goal.Changes)
    (h : pool.AtHand operation.request.tx operation.request.page ref) {outcome : Outcome}
    {after : Pool} (hrun : operation.alone.proceed ref pool = .ok (.done outcome) after) :
    holdDirty operation.request.tx [ref] after = .ok () after ∧
      operation.proceed ref pool = operation.alone.proceed ref pool := by
  have hcontinues := @proceed pool ref operation fun _ => h
  rw [hrun] at hcontinues ⊢
  refine ⟨?_, ?_⟩
  · obtain ⟨⟨tx, page, mode⟩, goal⟩ := operation
    have hends : Ends (Operation.alone ⟨⟨tx, page, mode⟩, goal⟩ |>.proceed ref) pool
        (fun _ after => hold true tx [ref] after = .ok () after) fun _ _ => True := by
      cases goal with
      | insert insertion layout placement =>
          have hplaced : Ends (Insertion.place { insertion with pooled := false } tx layout ref) pool
              (fun _ after => hold true tx [ref] after = .ok () after) fun _ _ => True :=
            (h.ends_change (layout.ends_insert tx _ insertion.tuple)).bind
              (fun _ _ hheld => hheld true) fun _ _ _ => trivial
          cases placement with
          | inspect index bound held => exact hchanges.elim
          | upgrade => exact hplaced
          | append => exact hplaced
      | delete layout tuple pooled =>
          exact (h.ends_change (layout.ends_delete tx _ tuple)).bind
            (fun _ _ hheld => hheld true) fun _ _ _ => trivial
      | _ => exact hchanges.elim
    exact hends.of_ok hrun
  · generalize operation.proceed ref pool = result at hcontinues
    cases hcontinues
    rfl

end Continues

/-- Pages are changed under exclusive locks. -/
theorem Operation.Suits.exclusive {operation : Operation} {regime : Regime} {pool : Pool}
    {call : Call} (h : operation.Suits regime pool call) (hchanges : operation.goal.Changes) :
    operation.request.mode = .exclusive := by
  obtain ⟨request, goal⟩ := operation
  have hgoal := h.suits
  cases goal with
  | insert insertion layout placement =>
      cases placement with
      | inspect index bound held => exact hchanges.elim
      | upgrade => exact hgoal.2.2.2
      | append => exact hgoal.2.2.2
  | delete layout tuple pooled => exact hgoal.2.2
  | _ => exact hchanges.elim

/-- What a table may be asked for in place of the pool: the same, unless the call changes a heap
table. -/
inductive Call.Own : Call → Call → Prop where
  | same (call : Call) : Own call call
  | insert {tx : TxId} {table : Table} {layout : Layout} {tuple : Tuple}
      (hkind : table.kind = .heap layout) :
      Own (.insert tx table.id tuple) (.insertInto tx table tuple)
  | delete {tx : TxId} {table : Table} {layout : Layout} {tuple : Tuple} {rid : RecordId}
      (hkind : table.kind = .heap layout) (hrid : tuple.rid = some rid)
      (htable : rid.page.table = table.id) :
      Own (.delete tx tuple) (.deleteFrom tx table tuple)

namespace Call.Own

variable {call own : Call}

theorem inserted?_eq (h : call.Own own) : own.inserted? = call.inserted? := by
  cases h <;> rfl

end Call.Own

theorem getTable_eq {pool : Pool} {id : UInt32} {table : Table} (h : pool.table? id = some table) :
    getTable id pool = .ok table pool := by
  simp only [getTable, Bind.bind, EStateM.bind, get, getThe, MonadStateOf.get, EStateM.get, h]
  rfl

/-- Up to its first request a call goes on as the table's own operation does, if the pool has the
table. -/
theorem Continues.start {call own : Call} {pool : Pool} (h : call.Own own)
    (hconcerns : ∀ table, pool.Concerns own table → pool.Concerns call table) :
    Continues (call.start pool) (own.start pool) := by
  cases h with
  | same => exact .same _
  | @insert tx table layout tuple hkind =>
      have htable : pool.table? table.id = some table := hconcerns table rfl
      have hstart : (Call.insert tx table.id tuple).start pool =
          Insertion.start { table, tuple, pooled := true } tx pool := by
        simp only [Call.start, Bind.bind, EStateM.bind, getTable_eq htable]
      rw [hstart]
      simp only [Call.start, Insertion.start, hkind]
      exact .bind fun bound after _ => .inspectFrom tx _ layout 0 bound after
  | @delete tx table layout tuple rid hkind hrid hid =>
      obtain ⟨_, hsome, htable⟩ := hconcerns table rfl
      obtain rfl := Option.some.inj (hrid.symm.trans hsome)
      have hstart : (Call.delete tx tuple).start pool = startDelete tx table tuple true pool := by
        simp only [Call.start, hrid, Bind.bind, EStateM.bind, getTable_eq htable]
      rw [hstart]
      simp only [Call.start, startDelete, hrid, hkind, hid, ne_eq, not_true, if_false]
      exact .ask _ _

end PagePool
