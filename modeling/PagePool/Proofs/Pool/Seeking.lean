import PagePool.Proofs.Pool.Placing

/-!
# What an insertion finds

An insertion counts the pages of its table and looks at them one by one. A page with room it keeps
locked until it writes, so the room stays. If it finds none it makes a page, and nothing keeps that
page from others before the insertion has locked it. This is the one stage at which a tuple may meet
a full page.
-/

namespace PagePool

open LockRecord Standing Pool

namespace Pool

/-- What holds while an insertion asks for a page: the pages that it goes through exist, the page
that it comes back to is locked and has room, and the last resort is a page that it has made. -/
inductive Seeks (pool : Pool) (tx : TxId) (insertion : Insertion) (layout : Layout)
    (made : PageId → Prop) : Operation → Prop where
  | inspect {index bound : Nat} {held : Bool} (hindex : index < bound)
      (hstored : ∀ other < bound, (pool.stored? (insertion.table.page other)).isSome) :
      pool.Seeks tx insertion layout made
        ⟨⟨tx, insertion.table.page index, .shared⟩,
          .insert insertion layout (.inspect index bound held)⟩
  | upgrade {page : PageId} (htable : page.table = insertion.table.id)
      (hstored : (pool.stored? page).isSome) (hheld : HeldBy (pool.locks.table.records page) tx)
      (hroom : ¬pool.Full layout page) :
      pool.Seeks tx insertion layout made
        ⟨⟨tx, page, .exclusive⟩, .insert insertion layout .upgrade⟩
  | append {page : PageId} (htable : page.table = insertion.table.id)
      (hstored : (pool.stored? page).isSome) (hmade : made page) :
      pool.Seeks tx insertion layout made
        ⟨⟨tx, page, .exclusive⟩, .insert insertion layout .append⟩

/-- What may keep a tuple from a page: its transaction has to abort, the cache has no room, or others
have filled the page, which is one that was made for the tuple. -/
def Thwarts (pool : Pool) (layout : Layout) (made : PageId → Prop) (error : Error) : Prop :=
  error.kind = .deadlock ∨ error.kind = .resourceExhausted ∨
    ∃ page, made page ∧ pool.Full layout page ∧ error = .pageFull page

variable {pool after : Pool} {tx : TxId} {call : Call} {insertion : Insertion} {layout : Layout}
  {made made' : PageId → Prop} {operation : Operation} {id : PageId} {ref : PageRef}
  {index bound : Nat}

theorem full_congr (htables : after.tables = pool.tables)
    (hcontent : after.content id = pool.content id) : after.Full layout id ↔ pool.Full layout id := by
  unfold Full shownRows
  rw [rowsOf_congr htables]
  simp only [rowsOf, hcontent]

theorem Thwarts.congr {error : Error} (h : after.Thwarts layout made error)
    (htables : after.tables = pool.tables) (hcontent : after.content = pool.content) :
    pool.Thwarts layout made error := by
  obtain hkind | hkind | ⟨page, hmade, hfull, rfl⟩ := h
  · exact .inl hkind
  · exact .inr (.inl hkind)
  · exact .inr (.inr ⟨page, hmade, (full_congr htables (congrFun hcontent page)).1 hfull, rfl⟩)

namespace Seeks

variable (h : pool.Seeks tx insertion layout made operation)
include h

/-- The page that is asked for is there. -/
theorem isSome_stored : (pool.stored? operation.request.page).isSome := by
  cases h with
  | inspect hindex hstored => exact hstored _ hindex
  | upgrade _ hstored | append _ hstored => exact hstored

theorem goal_ne_lock : operation.goal ≠ .lock := by
  cases h <;> simp

/-- A page that was made is asked for, for writing, wherever it is known who has made it. -/
theorem remade (hmade : made operation.request.page →
    operation.request = ⟨tx, operation.request.page, .exclusive⟩ → made' operation.request.page) :
    pool.Seeks tx insertion layout made' operation := by
  cases h with
  | inspect hindex hstored => exact .inspect hindex hstored
  | upgrade htable hstored hheld hroom => exact .upgrade htable hstored hheld hroom
  | append htable hstored hnew => exact .append htable hstored (hmade hnew rfl)

end Seeks

section Stages

variable (insertion : Insertion) (hpool : pool.Coherent)
  (hroom : (pool.volume insertion.table.volume).HasRoom pool.pageSize)
include hpool hroom

/-- On the way over the pages that there were, or behind the last of them. -/
theorem ends_inspectFrom_seeks (htable : pool.Registered insertion.table)
    (hsize : pool.pageSize ≠ 0)
    (hstored : ∀ other < bound, (pool.stored? (insertion.table.page other)).isSome) :
    Ends (inspectFrom tx insertion layout index bound) pool
      (fun step after => ∃ operation, step = .ask operation ∧
        after.Seeks tx insertion layout (fun page => pool.stored? page = none) operation)
      (fun _ _ => (pool.outline insertion.table.volume).isFile = false) := by
  rw [ends_inspectFrom_iff]
  split
  · next hindex => exact ⟨_, rfl, .inspect hindex hstored⟩
  · refine (ends_allocatePage_appends hpool htable hroom).mono ?_ ?_
    · rintro page after ⟨rfl, happends, _⟩
      refine ⟨_, rfl, .append rfl ?_ happends.blank⟩
      rw [happends.stored?_eq, if_pos rfl]
      rfl
    · rintro _ _ ⟨_, _, hempty⟩
      exact Bool.eq_false_iff.2 fun hfile => hsize (hempty hfile)

variable (hfitted : pool.Fitted) (hseats : pool.Seats insertion.table layout insertion.tuple)
include hfitted hseats

/-- A page with room is asked for again, under the lock that keeps the room. A full one is left for
the page behind it. -/
theorem ends_inspect_seeks {held : Bool} (hindex : index < bound)
    (hstored : ∀ other < bound, (pool.stored? (insertion.table.page other)).isSome)
    (hpeek : pool.cache.peek? (insertion.table.page index) = some ref)
    (hentitled : Operation.Entitled ⟨⟨call.tx, insertion.table.page index, .shared⟩,
      .insert insertion layout (.inspect index bound held)⟩ pool call) :
    Ends (Operation.proceed ⟨⟨call.tx, insertion.table.page index, .shared⟩,
        .insert insertion layout (.inspect index bound held)⟩ ref) pool
      (fun step after => ∃ operation, step = .ask operation ∧
        after.Seeks call.tx insertion layout (fun page => pool.stored? page = none) operation)
      (fun _ _ => (pool.outline insertion.table.volume).isFile = false) := by
  have hsize := hseats.pageSize_ne_zero hfitted
  obtain ⟨count, hrun, hcount⟩ := exists_freeSlots_full hpool hfitted hpeek
    hseats.layout?_eq
  refine ends_proceed_iff.2 ⟨fun _ hfailed => (nomatch hrun.symm.trans hfailed),
    fun free hfree => ?_⟩
  obtain rfl := Except.ok.inj (hrun.symm.trans hfree)
  split
  · next hpositive =>
    exact ⟨_, rfl, .upgrade rfl (hstored index hindex) hentitled.heldBy (hcount.1 hpositive)⟩
  split
  · exact ends_inspectFrom_seeks insertion hpool hroom hseats.registered hsize hstored
  · next hfresh =>
    have hreader := hentitled.reader (by simpa [Goal.drops] using hfresh)
    rw [ends_releaseLock_iff]
    have hreleased := ends_releaseLock_iff.1 (ends_releaseLock hpool hreader)
    exact ends_inspectFrom_seeks insertion (hreleased.1.evolves.coherent hpool) hroom
      hseats.registered hsize hstored

omit hroom in
/-- A tuple is put onto a page that its transaction owns, unless the page is full. -/
theorem ends_place_full (hpeek : pool.cache.peek? id = some ref)
    (htable : id.table = insertion.table.id)
    (howner : OwnedBy (pool.locks.table.records id) tx) :
    Ends (insertion.place tx layout ref) pool
      (fun step _ => ∃ tuple, step = .done ⟨.ok .unit, tuple⟩)
      (fun failure _ => pool.Full layout id ∧ failure = .error (.pageFull id)) := by
  have hlayout : pool.layout? id.table = some layout := htable ▸ hseats.layout?_eq
  refine (ends_place_exact hpool hfitted hpeek hlayout howner insertion).mono ?_ ?_
  · rintro _ _ ⟨_, _, rfl, _⟩
    exact ⟨_, rfl⟩
  · rintro _ _ ⟨_, hreason⟩
    exact hreason.resolve_left fun hwidth => hwidth hseats.width

/-- Over a page that it has asked for, an insertion goes on to another, or has put its tuple there.
If it fails, the page is full, and is one that was made for it. -/
theorem ends_proceed_seeks (hpeek : pool.cache.peek? operation.request.page = some ref)
    (hentitled : operation.Entitled pool call)
    (h : pool.Seeks call.tx insertion layout made operation) :
    Ends (operation.proceed ref) pool
      (fun step after => (∃ operation, step = .ask operation ∧
          after.Seeks call.tx insertion layout (fun page => pool.stored? page = none) operation) ∨
        ∃ tuple, step = .done ⟨.ok .unit, tuple⟩)
      (fun failure _ => (pool.outline insertion.table.volume).isFile = false ∨
        ∃ page, made page ∧ pool.Full layout page ∧ failure = .error (.pageFull page)) := by
  cases h with
  | inspect hindex hstored =>
      exact (ends_inspect_seeks insertion hpool hroom hfitted hseats hindex hstored hpeek
        hentitled).mono (fun _ _ => .inl) fun _ _ => .inl
  | upgrade htable _ _ hfree =>
      have hplace := ends_place_full insertion hpool hfitted hseats hpeek htable
        (hentitled.ownedBy rfl)
      exact hplace.mono (fun _ _ => .inr) fun _ _ hfull => absurd hfull.1 hfree
  | append htable _ hmade =>
      have hplace := ends_place_full insertion hpool hfitted hseats hpeek htable
        (hentitled.ownedBy rfl)
      exact hplace.mono (fun _ _ => .inr) fun _ _ hfull => .inr ⟨_, hmade, hfull⟩

end Stages

end Pool

end PagePool
