import PagePool.Pool.Completion
import PagePool.Pool.Operation
import PagePool.Proofs.Cache
import PagePool.Proofs.Ends

/-!
# The steps of a pool, one rule each

How a step of the pool ends is said here once, by how its parts end and without any assumption on
the pool. What else is known of the step, under one invariant or another, follows from its rule.
-/

namespace PagePool

variable {Result : Type} {pool : Pool} {id : PageId} {page : Page} {ref : PageRef} {tx : TxId}
  {table : Table} {fails : Failure → Pool → Prop}

theorem ends_onPage {step : EStateM Failure Page Result} {ok : Result → Pool → Prop} :
    Ends (onPage ref step) pool ok fails ↔
      Ends step (pool.page ref) (fun result page => ok result (pool.setPage ref page))
        (fun failure page => fails failure (pool.setPage ref page)) := by
  simp only [Ends, onPage]
  cases step (pool.page ref) <;> rfl

theorem ends_onVolume {target : VolumeRef} {step : EStateM Failure Volume Result}
    {ok : Result → Pool → Prop} :
    Ends (onVolume target step) pool ok fails ↔
      Ends step (pool.volume target) (fun result volume => ok result (pool.setVolume target volume))
        (fun failure volume => fails failure (pool.setVolume target volume)) := by
  simp only [Ends, onVolume]
  cases step (pool.volume target) <;> rfl

section Tables

theorem ends_getTable (number : UInt32) (pool : Pool) :
    Ends (getTable number) pool
      (fun table after => after = pool ∧ pool.table? number = some table)
      (fun _ after => after = pool) := by
  unfold getTable
  rw [ends_bind, ends_get]
  cases htable : pool.table? number with
  | none => rfl
  | some table => exact ⟨rfl, rfl⟩

theorem ends_getTable_of_eq {number : UInt32} {pool : Pool} {table : Table}
    (htable : pool.table? number = some table) :
    Ends (getTable number) pool (fun found after => after = pool ∧ found = table)
      (fun _ _ => False) := by
  unfold getTable
  rw [ends_bind, ends_get, htable]
  exact ⟨rfl, rfl⟩

theorem ends_getTable_of_none {number : UInt32} {pool : Pool} (htable : pool.table? number = none) :
    Ends (getTable number) pool (fun _ _ => False)
      (fun failure after => after = pool ∧ failure = .error (.tableMissing number)) := by
  unfold getTable
  rw [ends_bind, ends_get, htable]
  exact ⟨rfl, rfl⟩

theorem ends_pageCount (table : Table) (pool : Pool) :
    Ends (pageCount table) pool
      (fun count after => after = pool ∧
        (pool.volume table.volume).pageCount pool.pageSize = .ok count)
      (fun _ after => after = pool) := by
  unfold pageCount
  rw [ends_bind, ends_get, ends_lift]
  exact ⟨fun _ hcount => ⟨rfl, hcount⟩, fun _ _ => rfl⟩

theorem ends_readStored_iff {ok : Page → Pool → Prop} :
    Ends (readStored table id) pool ok fails ↔
      Ends (Volume.readPage pool.pageSize table.id id) (pool.volume table.volume)
        (fun page volume => ok page (pool.setVolume table.volume volume))
        (fun failure volume => fails failure (pool.setVolume table.volume volume)) := by
  unfold readStored
  rw [ends_bind, ends_get, ends_onVolume]

theorem ends_writeStored_iff {ok : Unit → Pool → Prop} :
    Ends (writeStored table page) pool ok fails ↔
      Ends (Volume.writePage pool.pageSize page) (pool.volume table.volume)
        (fun result volume => ok result (pool.setVolume table.volume volume))
        (fun failure volume => fails failure (pool.setVolume table.volume volume)) := by
  unfold writeStored
  rw [ends_bind, ends_get, ends_onVolume]

theorem ends_allocatePage_iff {ok : PageId → Pool → Prop} :
    Ends (allocatePage table) pool ok fails ↔
      Ends (Volume.appendPage pool.pageSize) (pool.volume table.volume)
        (fun index volume => ok ⟨table.id, index⟩ (pool.setVolume table.volume volume))
        (fun failure volume => fails failure (pool.setVolume table.volume volume)) := by
  unfold allocatePage
  rw [ends_bind, ends_get, ends_bind, ends_onVolume]
  rfl

end Tables

section Access

/-- A page that is resident comes to the front; any other one is read from the storage of its
table. -/
theorem ends_fetch_iff {ok : Fetched → Pool → Prop} :
    Ends (fetch id) pool ok fails ↔
      (∀ ref, pool.cache.peek? id = some ref →
        ok (.resident ref) { pool with cache := pool.cache.promote id ref }) ∧
      (pool.cache.peek? id = none → Ends (getTable id.table) pool
        (fun table middle => Ends (readStored table id) middle (fun page => ok (.loaded page)) fails)
        fails) := by
  unfold fetch
  rw [ends_bind, ends_get, ends_bind, ends_set]
  cases hpeek : pool.cache.peek? id with
  | none =>
      rw [Cache.get?_absent hpeek]
      dsimp only
      rw [ends_bind]
      simp only [ends_bind, ends_pure, reduceCtorEq, false_implies, implies_true, true_and,
        true_implies]
  | some ref =>
      rw [Cache.get?_resident hpeek]
      simp

/-- A page comes to the front as a new object, unless it is resident. -/
theorem ends_install_iff {ok : PageRef → Pool → Prop} :
    Ends (install page) pool ok fails ↔
      (∀ ref, pool.cache.peek? page.id = some ref →
        ok ref { pool with cache := pool.cache.promote page.id ref }) ∧
      (pool.cache.peek? page.id = none → Ends (cachePage page.id pool.frames.next) pool
        (fun _ after => ok pool.frames.next
          { after with frames := after.frames.alloc page }) fails) := by
  unfold install
  rw [ends_bind, ends_get, ends_bind, ends_set]
  cases hpeek : pool.cache.peek? page.id with
  | none =>
      rw [Cache.get?_absent hpeek]
      dsimp only
      rw [ends_bind]
      simp only [ends_bind, ends_modify, ends_pure, reduceCtorEq, false_implies, implies_true,
        true_and, true_implies]
  | some ref =>
      rw [Cache.get?_resident hpeek]
      simp

theorem ends_cachePage_iff {ok : Unit → Pool → Prop} :
    Ends (cachePage id ref) pool ok fails ↔
      (∀ evicted cache, pool.cache.put pool.frames pool.isPinned id ref = .ok (evicted, cache) →
        ok () { pool with cache }) ∧
      ∀ error, pool.cache.put pool.frames pool.isPinned id ref = .error error →
        fails (.error error) pool := by
  unfold cachePage
  rw [ends_bind, ends_get]
  cases pool.cache.put pool.frames pool.isPinned id ref with
  | ok result => simp [Prod.ext_iff]
  | error error => simp

theorem cachePage_of_resident (hpeek : pool.cache.peek? id = some ref) :
    cachePage id ref pool = .ok () { pool with cache := pool.cache.promote id ref } := by
  rw [← ends_iff_eq, ends_cachePage_iff, Cache.put_resident hpeek]
  exact ⟨by rintro _ _ ⟨⟩; exact ⟨rfl, rfl⟩, nofun⟩

end Access

section Completion

/-- A page goes to the storage of its table. -/
def storePage (id : PageId) (page : Page) : Action Unit := do
  let table ← getTable id.table
  writeStored table page

/-- Only a dirty page is written, and it is marked then. -/
theorem ends_flushPage_iff {ok : Unit → Pool → Prop} :
    Ends (flushPage id) pool ok fails ↔
      ((∀ ref, pool.cache.peek? id = some ref → (pool.page ref).dirty = none) → ok () pool) ∧
      ∀ ref, pool.cache.peek? id = some ref → (pool.page ref).dirty.isSome →
        Ends (storePage id (pool.page ref)) pool
          (fun _ after => ok () (after.setPage ref (after.page ref).flushed)) fails := by
  unfold flushPage storePage
  rw [ends_bind, ends_get]
  cases hpeek : pool.cache.peek? id with
  | none => simp
  | some ref =>
      dsimp only
      by_cases hdirty : (pool.page ref).dirty.isSome
      · rw [if_pos hdirty]
        simp [ends_bind, hdirty, Option.isSome_iff_ne_none.1 hdirty]
      · rw [if_neg hdirty]
        simp [Option.not_isSome_iff_eq_none.1 hdirty]

/-- A page is flushed, and its image is forgotten. -/
theorem ends_commitPage_iff {ok : Unit → Pool → Prop} :
    Ends (commitPage id) pool ok fails ↔
      Ends (flushPage id) pool
        (fun _ after => (after.cache.peek? id = none → ok () after) ∧
          ∀ ref, after.cache.peek? id = some ref →
            ok () (after.setPage ref (after.page ref).clearBeforeImage)) fails := by
  unfold commitPage
  rw [ends_bind]
  refine iff_of_eq (congrArg (Ends _ _ · fails) ?_)
  funext _ after
  rw [ends_bind, ends_get]
  cases after.cache.peek? id with
  | none => simp
  | some ref => simp

/-- The page of another writer is left alone. Any other page gets its image back, in storage too if
it is stolen; if it is dirty and has no image, then it is dropped. -/
theorem ends_rollbackPage_iff {ok : Unit → Pool → Prop} :
    Ends (rollbackPage tx id) pool ok fails ↔
      (pool.cache.peek? id = none → ok () pool) ∧
      ∀ ref, pool.cache.peek? id = some ref →
        if (pool.page ref).dirty.isSome ∧ (pool.page ref).dirty ≠ some tx then ok () pool
        else
          (∀ restored, (pool.page ref).restored? = some restored →
            Ends (if (pool.page ref).stolen then storePage id restored else pure ())
              (pool.setPage ref restored)
              (fun _ after => ok () (after.setPage ref (after.page ref).clearBeforeImage)) fails) ∧
          ((pool.page ref).restored? = none →
            if (pool.page ref).dirty.isSome then ok () { pool with cache := pool.cache.remove id }
            else ok () pool) := by
  unfold rollbackPage storePage
  rw [ends_bind, ends_get]
  cases hpeek : pool.cache.peek? id with
  | none => simp
  | some ref =>
      dsimp only
      simp only [reduceCtorEq, false_implies, true_and, Option.some.injEq, forall_eq']
      by_cases hforeign : (pool.page ref).dirty.isSome ∧ (pool.page ref).dirty ≠ some tx
      · rw [if_pos hforeign, if_pos (by simpa using hforeign), ends_pure]
      · rw [if_neg hforeign, if_neg (by simpa using hforeign)]
        cases (pool.page ref).restored? with
        | none =>
            simp only [reduceCtorEq, false_implies, implies_true, true_and, true_implies]
            split <;> rfl
        | some restored =>
            simp only [reduceCtorEq, false_implies, and_true, Option.some.injEq, forall_eq']
            rw [ends_bind, ends_set]
            cases (pool.page ref).stolen with
            | false => rfl
            | true =>
                simp only [if_true, ends_bind, ends_modify]

end Completion

section Operations

variable {ok : Step → Pool → Prop} {insertion : Insertion} {layout : Layout}

theorem ends_releaseLock_iff {ok : Bool → Pool → Prop} :
    Ends (releaseLock tx id) pool ok fails ↔
      ok (pool.locks.release tx id).1 { pool with locks := (pool.locks.release tx id).2 } :=
  Iff.rfl

/-- A page that is held must be locked for writing. It is marked and comes to the front. -/
theorem ends_holdDirty_cons {rest : List PageRef} {ok : Unit → Pool → Prop} :
    Ends (holdDirty tx (ref :: rest)) pool ok fails ↔
      if pool.locks.table.mode? tx (pool.page ref).id = some .exclusive then
        Ends (cachePage (pool.page ref).id ref) (pool.setPage ref ((pool.page ref).mark tx true))
          (fun _ after => Ends (holdDirty tx rest) after ok fails) fails
      else fails (.fault (.unlockedChange tx (pool.page ref).id)) pool := by
  conv_lhs => unfold holdDirty
  rw [ends_bind, ends_get]
  dsimp only
  by_cases hmode : pool.locks.table.mode? tx (pool.page ref).id = some .exclusive
  · rw [if_pos hmode, if_neg (by simpa using hmode)]
    simp only [ends_bind, ends_set]
  · rw [if_neg hmode, if_pos hmode]
    rfl

/-- An insertion asks for the next page, or for a new one after the last. -/
theorem ends_inspectFrom_iff {index bound : Nat} :
    Ends (inspectFrom tx insertion layout index bound) pool ok fails ↔
      if index < bound then
        ok (.lock tx (insertion.table.page index) .shared (.insert insertion layout
          (.inspect index bound (pool.locks.table.holds tx (insertion.table.page index))))) pool
      else
        Ends (allocatePage insertion.table) pool
          (fun page => ok (.lock tx page .exclusive (.insert insertion layout .append))) fails := by
  unfold inspectFrom
  split
  · rfl
  · rw [ends_bind]
    rfl

/-- The tuple goes onto the page. It has its record id from then on, also if the page cannot be
held. -/
theorem ends_place_iff :
    Ends (insertion.place tx layout ref) pool ok fails ↔
      Ends (onPage ref (layout.insert tx insertion.tuple)) pool
        (fun placed middle => Ends (hold insertion.pooled tx [ref]) middle
          (fun _ after => ok (.done ⟨.ok .unit, some placed⟩) after)
          (fun failure after => ok (.done ⟨.error failure, some placed⟩) after)) fails := by
  unfold Insertion.place
  rw [ends_bind]
  refine iff_of_eq (congrArg (Ends _ _ · fails) ?_)
  funext placed middle
  rw [ends_bind]
  unfold Ends observing
  cases hold insertion.pooled tx [ref] middle <;> rfl

/-- What an operation does with the page whose lock it has got. -/
theorem ends_proceed_iff {operation : Operation} :
    Ends (operation.proceed ref) pool ok fails ↔
      match operation.goal with
      | .lock => ok (.answer .unit) pool
      | .page => ok (.answer (.page ref)) pool
      | .insert insertion layout (.inspect index bound held) =>
          (∀ failure, layout.freeSlots (pool.page ref) = .error failure → fails failure pool) ∧
          ∀ free, layout.freeSlots (pool.page ref) = .ok free →
            if 0 < free then
              ok (.lock operation.request.tx operation.request.page .exclusive
                (.insert insertion layout .upgrade)) pool
            else if held then
              Ends (inspectFrom operation.request.tx insertion layout (index + 1) bound) pool ok
                fails
            else
              Ends (releaseLock operation.request.tx operation.request.page) pool
                (fun _ middle => Ends (inspectFrom operation.request.tx insertion layout (index + 1)
                  bound) middle ok fails) fails
      | .insert insertion layout _ =>
          Ends (insertion.place operation.request.tx layout ref) pool ok fails
      | .stamp insertion index cell rest changed =>
          Ends (onPage ref (Page.write operation.request.tx 0 [UInt8.ofNat cell.toUInt32.toNat]))
            pool
            (fun _ middle => Ends (stampFrom operation.request.tx insertion operation.request.mode
              (index + 1) (changed ++ [ref]) rest) middle ok fails) fails
      | .delete layout tuple pooled =>
          Ends (onPage ref (layout.delete operation.request.tx tuple)) pool
            (fun _ middle => Ends (hold pooled operation.request.tx [ref]) middle
              (fun _ => ok (.answer .unit)) fails) fails
      | .unstamp pooled =>
          Ends (onPage ref (Page.write operation.request.tx 0 [0])) pool
            (fun _ middle => Ends (hold pooled operation.request.tx [ref]) middle
              (fun _ => ok (.answer .unit)) fails) fails
      | .scan table layout index bound found =>
          (∀ failure, layout.tuples (pool.page ref) = .error failure → fails failure pool) ∧
          ∀ tuples, layout.tuples (pool.page ref) = .ok tuples →
            ok (scanFrom operation.request.tx table layout (index + 1) bound (found ++ tuples))
              pool := by
  obtain ⟨request, goal⟩ := operation
  unfold Operation.proceed
  cases goal with
  | lock | page => rfl
  | insert insertion layout placement =>
      cases placement with
      | upgrade | append => rfl
      | inspect index bound held =>
          dsimp only
          rw [ends_bind, ends_get, ends_bind, ends_lift, and_comm]
          refine and_congr_right fun _ => forall₂_congr fun free _ => ?_
          split
          · rfl
          · cases held with
            | true => rfl
            | false => exact ends_bind
  | stamp | delete | unstamp => simp only [ends_bind, ends_pure]
  | scan table layout index bound found =>
      dsimp only
      rw [ends_bind, ends_get, ends_bind, ends_lift, and_comm]
      rfl

end Operations

end PagePool
