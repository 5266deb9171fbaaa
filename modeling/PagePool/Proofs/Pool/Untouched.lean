import PagePool.Proofs.Pool.Custody

/-!
# What a refused change leaves behind

An insertion or deletion in a heap table that is refused has touched no page and no stored byte,
except that an insertion appends a page of zeros before it asks for it, once it has found all pages
of its table full.
-/

namespace PagePool

open LockRecord Pool

/-- An error that the caller gets back, as opposed to a breach of its duties. -/
def Failure.IsError : Failure → Prop
  | .error _ => True
  | .fault _ => False

section Pages

variable (layout : Layout) (tx : TxId) (page : Page) (tuple : Tuple)

theorem Page.ends_write_fault (offset : Nat) (chunk : Bytes) :
    Ends (Page.write tx offset chunk) page (fun _ _ => True)
      (fun failure _ => ¬failure.IsError) := by
  unfold Page.write
  rw [ends_bind, ends_modify, ends_bind, ends_get, ends_bind, ends_lift]
  refine ⟨fun _ _ => trivial, fun failure hfailure => ?_⟩
  unfold Bytes.splice at hfailure
  split at hfailure
  · cases hfailure
  · cases hfailure
    exact False.elim

theorem Layout.ends_insert_error :
    Ends (layout.insert tx tuple) page (fun _ _ => True)
      (fun failure after => failure.IsError → after = page) := by
  unfold insert
  split
  · exact fun _ => rfl
  rw [ends_bind, ends_get, ends_bind, ends_lift]
  refine ⟨fun occupancy _ => ?_, fun _ _ _ => rfl⟩
  split
  · exact fun _ => rfl
  · next slot _ =>
    refine (ends_setHeader tx page slot true).bind ?_ fun _ _ => False.elim
    intro _ marked _
    exact (Page.ends_write_fault tx marked _ _).bind (fun _ _ _ => trivial)
      fun _ _ hfault herror => absurd herror hfault

end Pages

namespace Pool

/-- The page objects are the same, and new ones are as they came from storage. -/
structure SameObjects (before after : Pool) : Prop where
  tables_eq : after.tables = before.tables
  pageSize_eq : after.pageSize = before.pageSize
  next_le : before.frames.next ≤ after.frames.next
  page_eq : ∀ ref, ref < before.frames.next → after.page ref = before.page ref
  loaded : ∀ ref, before.frames.next ≤ ref → ref < after.frames.next →
    ∃ id data, after.page ref = Page.load id data

/-- The stored bytes are the same as well. -/
structure Untouched (before after : Pool) : Prop extends before.SameObjects after where
  medium_eq : ∀ ref, (after.volume ref).medium = (before.volume ref).medium

/-- The volume of a table has got a page of zeros, unless all numbers of pages are taken. -/
structure Lengthens (table : Table) (before after : Pool) : Prop extends
    before.SameObjects after where
  grown : (before.volume table.volume).HasRoom before.pageSize →
    (before.volume table.volume).Grown before.pageSize (after.volume table.volume)
  medium_eq : ∀ ref, ref ≠ table.volume → (after.volume ref).medium = (before.volume ref).medium

/-- An insertion has appended a page to its table. -/
def Adds (call : Call) (before after : Pool) : Prop :=
  ∃ table tuple, before.Concerns call table ∧ call.inserted? = some tuple ∧
    before.Lengthens table after

/-- A page is resident, and has no empty slot. -/
def FullAt (pool : Pool) (layout : Layout) (page : PageId) : Prop :=
  ∃ ref, pool.cache.peek? page = some ref ∧ layout.freeSlots (pool.page ref) = .ok 0

variable {pool before middle after : Pool} {call : Call}

namespace SameObjects

theorem of_frames_eq (htables : after.tables = before.tables)
    (hsize : after.pageSize = before.pageSize) (hframes : after.frames = before.frames) :
    before.SameObjects after where
  tables_eq := htables
  pageSize_eq := hsize
  next_le := Nat.le_of_eq (congrArg Frames.next hframes).symm
  page_eq ref _ := by rw [Pool.page, hframes, Pool.page]
  loaded ref hnew hold := by
    rw [hframes] at hold
    exact absurd hold (Nat.not_lt.2 hnew)

theorem trans (h : before.SameObjects middle) (h' : middle.SameObjects after) :
    before.SameObjects after where
  tables_eq := h'.tables_eq.trans h.tables_eq
  pageSize_eq := h'.pageSize_eq.trans h.pageSize_eq
  next_le := Nat.le_trans h.next_le h'.next_le
  page_eq ref hin := (h'.page_eq ref (Nat.lt_of_lt_of_le hin h.next_le)).trans (h.page_eq ref hin)
  loaded ref hnew hin := by
    by_cases hmiddle : ref < middle.frames.next
    · rw [h'.page_eq ref hmiddle]
      exact h.loaded ref hnew hmiddle
    · exact h'.loaded ref (Nat.le_of_not_lt hmiddle) hin

theorem concerns_iff (h : before.SameObjects after) {table : Table} :
    after.Concerns call table ↔ before.Concerns call table := by
  have htable : ∀ number, after.table? number = before.table? number := fun number => by
    simp only [table?, h.tables_eq]
  cases call <;> simp only [Concerns, htable]

end SameObjects

namespace Untouched

/-- Whatever happens to the cache and to the locks. -/
theorem of_eq (htables : after.tables = before.tables) (hsize : after.pageSize = before.pageSize)
    (hframes : after.frames = before.frames) (hvolumes : after.volumes = before.volumes) :
    before.Untouched after where
  toSameObjects := .of_frames_eq htables hsize hframes
  medium_eq ref := by rw [Pool.volume, hvolumes, Pool.volume]

theorem refl (pool : Pool) : pool.Untouched pool :=
  .of_eq rfl rfl rfl rfl

theorem trans (h : before.Untouched middle) (h' : middle.Untouched after) :
    before.Untouched after where
  toSameObjects := h.toSameObjects.trans h'.toSameObjects
  medium_eq ref := (h'.medium_eq ref).trans (h.medium_eq ref)

theorem setVolume {target : VolumeRef} {volume : Volume}
    (hmedium : volume.medium = (pool.volume target).medium) :
    pool.Untouched (pool.setVolume target volume) where
  toSameObjects := .of_frames_eq rfl rfl rfl
  medium_eq ref := by
    rw [volume_set]
    split
    · next hsame => rw [hmedium, hsame.1]
    · rfl

theorem alloc (id : PageId) (data : Bytes) (cache : Cache) :
    pool.Untouched { pool with cache, frames := pool.frames.alloc (.load id data) } where
  tables_eq := rfl
  pageSize_eq := rfl
  next_le := by simp [Frames.alloc, Frames.next]
  page_eq ref hin := by
    rw [Pool.page, Frames.page_alloc, if_neg (Nat.ne_of_lt hin), Pool.page]
  loaded ref hnew hin := by
    have hlast : ref = pool.frames.next := by
      refine Nat.le_antisymm (Nat.le_of_lt_succ ?_) hnew
      calc ref < (pool.frames.alloc (.load id data)).next := hin
        _ = pool.frames.next + 1 := List.length_append
    exact ⟨id, data, by rw [Pool.page, Frames.page_alloc, if_pos hlast]⟩
  medium_eq _ := rfl

theorem adds (h : before.Untouched middle) (h' : middle.Adds call after) :
    before.Adds call after := by
  obtain ⟨table, tuple, hconcerns, htuple, hlengthens⟩ := h'
  refine ⟨table, tuple, h.toSameObjects.concerns_iff.1 hconcerns, htuple,
    ⟨h.toSameObjects.trans hlengthens.toSameObjects, ?_, fun ref hne => ?_⟩⟩
  · rw [← h.pageSize_eq]
    intro hroom
    exact (hlengthens.grown (hroom.congr (h.medium_eq _))).congr (h.medium_eq _)
  · exact (hlengthens.medium_eq ref hne).trans (h.medium_eq ref)

end Untouched

theorem Adds.then (h : before.Adds call middle) (h' : middle.Untouched after) :
    before.Adds call after := by
  obtain ⟨table, tuple, hconcerns, htuple, hlengthens⟩ := h
  refine ⟨table, tuple, hconcerns, htuple,
    ⟨hlengthens.toSameObjects.trans h'.toSameObjects, fun hroom => ?_, fun ref hne => ?_⟩⟩
  · obtain ⟨file, grown, hfile, hgrown, hbytes⟩ := hlengthens.grown hroom
    exact ⟨file, grown, hfile, (h'.medium_eq _).trans hgrown, hbytes⟩
  · exact (h'.medium_eq ref).trans (hlengthens.medium_eq ref hne)

section Steps

variable {id : PageId} {ref : PageRef} {page : Page} {tx : TxId}

theorem ends_fetch_untouched (id : PageId) (pool : Pool) :
    Ends (fetch id) pool (fun _ after => pool.Untouched after)
      (fun _ after => pool.Untouched after) := by
  refine ends_fetch_iff.2 ⟨fun _ _ => .of_eq rfl rfl rfl rfl, fun _ => ?_⟩
  apply (ends_getTable id.table pool).mono _ fun _ _ hafter => by
    rw [hafter]
    exact .refl pool
  rintro table _ ⟨rfl, _⟩
  rw [ends_readStored_iff]
  exact (Volume.ends_readPage_lasts _ _ table.id id).mono
    (fun _ _ hread => .setVolume hread.2.1) fun _ _ hread => .setVolume hread.2

theorem ends_install_untouched (id : PageId) (data : Bytes) (pool : Pool) :
    Ends (install (.load id data)) pool (fun _ after => pool.Untouched after)
      (fun _ after => pool.Untouched after) :=
  ends_install_iff.2 ⟨fun _ _ => .of_eq rfl rfl rfl rfl, fun _ =>
    ends_cachePage_iff.2 ⟨fun _ _ _ => .alloc id data _, fun _ _ => .refl pool⟩⟩

/-- A page that is resident can be held, if its lock is. -/
theorem ends_hold_resident (pooled : Bool)
    (hpeek : pool.cache.peek? (pool.page ref).id = some ref) :
    Ends (hold pooled tx [ref]) pool (fun _ _ => True) (fun failure _ => ¬failure.IsError) := by
  unfold hold
  split
  · rw [ends_holdDirty_cons]
    split
    · refine ends_cachePage_iff.2 ⟨fun _ _ _ => trivial, fun error hput => ?_⟩
      have hmarked : (pool.setPage ref ((pool.page ref).mark tx true)).cache.peek?
          (pool.page ref).id = some ref := hpeek
      rw [Cache.put_resident hmarked] at hput
      cases hput
    · exact False.elim
  · trivial

/-- A change of a page that is resident. If it is refused, nothing has happened. -/
theorem Tidy.ends_change {Result : Type} {step : EStateM Failure Page Result}
    (h : pool.Tidy .free) (hpeek : pool.cache.peek? id = some ref)
    (hstep : Ends step (pool.page ref) (fun _ after => (pool.page ref).Rewritten tx after)
      (fun failure after => failure.IsError → after = pool.page ref)) :
    Ends (onPage ref step) pool (fun _ after => after.cache.peek? (after.page ref).id = some ref)
      (fun failure after => failure.IsError → after = pool) := by
  rw [PagePool.ends_onPage]
  apply hstep.mono
  · intro _ page hpage
    obtain ⟨data, _, rfl⟩ := hpage
    rw [page_setPage, if_pos ⟨rfl, h.inside hpeek⟩]
    change pool.cache.peek? (pool.page ref).id = some ref
    rw [h.named hpeek, hpeek]
  · intro _ page hpage herror
    rw [hpage herror, setPage_page]

end Steps

end Pool

namespace Goal

/-- The goals of insertions into heap tables and of deletions from them. -/
def OnHeap : Goal → Prop
  | .insert .. | .delete .. => True
  | _ => False

end Goal

/-- The pages of a table from one index up to another. -/
def Table.pages (table : Table) (first bound : Nat) : List PageId :=
  (List.range' first (bound - first)).map table.page

/-- The pages that an insertion into a heap table is to look at: all that the table has when the
call begins. -/
def Pool.sought? (pool : Pool) (call : Call) : Option (Layout × List PageId) := do
  let table ← pool.grown? call
  let layout ← table.layout?
  let count ← ((pool.volume table.volume).pageCount pool.pageSize).toOption
  return (layout, table.pages 0 count)

/-- The pages that an insertion is still to look at before it appends one. -/
def Operation.sought? (operation : Operation) : Option (Layout × List PageId) :=
  match operation.goal with
  | .insert insertion layout (.inspect index bound _) =>
      some (layout, operation.request.page :: insertion.table.pages (index + 1) bound)
  | _ => none

/-- How far a stretch takes a call on a heap table: it leaves the data alone, or it appends a page
because there is none left to look at. The pages that it has looked at on its way are full. -/
inductive Pool.Progress (call : Call) (before after : Pool) :
    Option (Layout × List PageId) → Option (Layout × List PageId) → Prop where
  | stay {sought : Option (Layout × List PageId)} (huntouched : before.Untouched after) :
      Progress call before after sought sought
  | leave {sought : Option (Layout × List PageId)} (huntouched : before.Untouched after) :
      Progress call before after sought none
  | append {layout : Layout} (hadds : before.Adds call after) :
      Progress call before after (some (layout, [])) none
  | full {layout : Layout} {page : PageId} {pages : List PageId}
      {next : Option (Layout × List PageId)} (hfull : after.FullAt layout page)
      (h : Progress call before after (some (layout, pages)) next) :
      Progress call before after (some (layout, page :: pages)) next

/-- A stretch leads to the next request, or to an end that is no refusal. -/
def Step.Passes (step : Step) (call : Call) (sought : Option (Layout × List PageId))
    (before after : Pool) : Prop :=
  match step with
  | .ask operation => operation.goal.OnHeap ∧ before.Progress call after sought operation.sought?
  | .done outcome => ∀ error, outcome.result ≠ .error (.error error)

section Progress

variable {table : Table} {first bound : Nat} {call : Call} {before middle after : Pool}
  {sought next : Option (Layout × List PageId)}

theorem Table.pages_of_lt (h : first < bound) :
    table.pages first bound = table.page first :: table.pages (first + 1) bound := by
  obtain ⟨more, hmore⟩ : ∃ more, bound - first = more + 1 := ⟨bound - first - 1, by omega⟩
  have hrest : bound - (first + 1) = more := by omega
  rw [pages, pages, hmore, hrest]
  rfl

theorem Table.pages_of_le (h : bound ≤ first) : table.pages first bound = [] := by
  rw [pages, Nat.sub_eq_zero_of_le h]
  rfl

theorem Pool.Progress.of_untouched (h : middle.Progress call after sought next)
    (huntouched : before.Untouched middle) : before.Progress call after sought next := by
  induction h with
  | stay hrest => exact .stay (huntouched.trans hrest)
  | leave hrest => exact .leave (huntouched.trans hrest)
  | append hadds => exact .append (huntouched.adds hadds)
  | full hfull _ ih => exact .full hfull ih

/-- What is done to the locks afterwards does not matter. -/
theorem Pool.Progress.withLocks (h : before.Progress call after sought next)
    (locks : LockManager) : before.Progress call { after with locks } sought next := by
  have hlocks : after.Untouched { after with locks } := .of_eq rfl rfl rfl rfl
  induction h with
  | stay huntouched => exact .stay (huntouched.trans hlocks)
  | leave huntouched => exact .leave (huntouched.trans hlocks)
  | append hadds => exact .append (hadds.then hlocks)
  | full hfull _ ih => exact .full hfull ih

theorem Step.Passes.of_untouched {step : Step} (h : step.Passes call sought middle after)
    (huntouched : before.Untouched middle) : step.Passes call sought before after := by
  cases step with
  | ask operation => exact h.imp_right (·.of_untouched huntouched)
  | done outcome => exact h

end Progress

/-- The tuple that an operation on a heap table has to place is the one that its call was given. -/
theorem Operation.Suits.inserted?_eq {operation : Operation} {regime : Regime} {pool : Pool}
    {call : Call} (h : operation.Suits regime pool call) (hheap : operation.goal.OnHeap) :
    operation.goal.inserted? = call.inserted? := by
  obtain ⟨request, goal⟩ := operation
  have hgoal := h.suits
  cases goal with
  | insert insertion layout placement => exact hgoal.2.2.1.symm
  | delete layout tuple pooled => exact hgoal.2.1.symm
  | _ => exact hheap.elim

namespace Pool

section Stretches

variable {pool : Pool} {call : Call} {insertion : Insertion} {layout : Layout}

theorem ends_allocatePage_adds (table : Table) (pool : Pool) :
    Ends (allocatePage table) pool
      (fun _ after => pool.Lengthens table after ∧ after.cache = pool.cache ∧
        after.frames = pool.frames)
      (fun _ after => pool.Untouched after) := by
  rw [ends_allocatePage_iff]
  apply (Volume.ends_appendPage_grown _ pool.pageSize).mono
  · intro _ volume hvolume
    refine ⟨⟨.of_frames_eq rfl rfl rfl, fun hroom => ?_, fun ref hne => ?_⟩, rfl, rfl⟩
    · have hgrown := hvolume hroom
      have hin : table.volume < pool.volumes.length := by
        -- a volume that is not there has no file
        by_contra hout
        obtain ⟨file, _, hfile, _⟩ := hgrown
        rw [Pool.volume, List.getD_eq_getElem?_getD,
          List.getElem?_eq_none (Nat.le_of_not_lt hout)] at hfile
        cases hfile
      rwa [volume_set, if_pos ⟨rfl, hin⟩]
    · rw [volume_set, if_neg fun hsame => hne hsame.1.symm]
  · exact fun _ _ hmedium => .setVolume hmedium

/-- A page is appended where there is none left to look at. -/
theorem ends_inspectFrom_passes (hconcerns : pool.Concerns call insertion.table)
    (htuple : call.inserted? = some insertion.tuple) (tx : TxId) (index bound : Nat) :
    Ends (inspectFrom tx insertion layout index bound) pool
      (fun step after =>
        step.Passes call (some (layout, insertion.table.pages index bound)) pool after ∧
          after.cache = pool.cache ∧ after.frames = pool.frames)
      (fun _ after => pool.Untouched after) := by
  rw [ends_inspectFrom_iff]
  split
  · next hin =>
    rw [Table.pages_of_lt hin]
    exact ⟨⟨trivial, .stay (.refl pool)⟩, rfl, rfl⟩
  · next hbehind =>
    rw [Table.pages_of_le (Nat.le_of_not_lt hbehind)]
    refine (ends_allocatePage_adds insertion.table pool).mono ?_ fun _ _ hafter => hafter
    exact fun _ _ hafter => ⟨⟨trivial, .append ⟨_, _, hconcerns, htuple, hafter.1⟩⟩, hafter.2⟩

/-- Behind a page that is full the insertion goes on to the next one. -/
theorem ends_inspectFrom_full {page : PageId} {ref : PageRef} {middle : Pool}
    (hconcerns : pool.Concerns call insertion.table)
    (htuple : call.inserted? = some insertion.tuple) (tx : TxId) (index bound : Nat)
    (hpeek : pool.cache.peek? page = some ref)
    (hfull : layout.freeSlots (pool.page ref) = .ok 0)
    (hmiddle : ∃ locks, middle = { pool with locks }) :
    Ends (inspectFrom tx insertion layout index bound) middle
      (fun step after =>
        step.Passes call (some (layout, page :: insertion.table.pages index bound)) pool after)
      (fun _ after => pool.Untouched after) := by
  obtain ⟨locks, rfl⟩ := hmiddle
  have hsame : pool.Untouched { pool with locks } := .of_eq rfl rfl rfl rfl
  refine (ends_inspectFrom_passes (hsame.concerns_iff.2 hconcerns) htuple tx index bound).mono ?_
    fun _ _ hafter => hsame.trans hafter
  rintro step after ⟨hpasses, hcache, hframes⟩
  have hfull' : after.FullAt layout page := by
    refine ⟨ref, hcache ▸ hpeek, ?_⟩
    rw [Pool.page, hframes]
    exact hfull
  have hpasses := hpasses.of_untouched hsame
  cases step with
  | ask operation => exact hpasses.imp_right (.full hfull')
  | done outcome => exact hpasses

/-- A change that has been made is held, so only a breach keeps it from its end. -/
theorem Tidy.ends_place_passes {id : PageId} {ref : PageRef} (h : pool.Tidy .free)
    (hpeek : pool.cache.peek? id = some ref) (tx : TxId)
    (sought : Option (Layout × List PageId)) :
    Ends (insertion.place tx layout ref) pool
      (fun step after => step.Passes call sought pool after)
      (fun failure after => failure.IsError → pool.Untouched after) := by
  have hinsert := (layout.ends_insert tx (pool.page ref) insertion.tuple).and
    (layout.ends_insert_error tx (pool.page ref) insertion.tuple)
  have hchange := h.ends_change hpeek (hinsert.mono (fun _ _ hafter => hafter.1)
    fun _ _ hafter => hafter.2)
  refine ends_place_iff.2 (hchange.mono ?_ fun _ _ hafter herror => hafter herror ▸ .refl pool)
  intro placed middle hresident
  refine (ends_hold_resident insertion.pooled hresident).mono (fun _ _ _ _ => nofun) ?_
  intro failure _ hfault error hresult
  cases Except.error.inj hresult
  exact hfault trivial

theorem Tidy.ends_proceed_passes {operation : Operation} {ref : PageRef} (h : pool.Tidy .free)
    (hsuits : operation.Suits .free pool call) (hheap : operation.goal.OnHeap)
    (hpeek : pool.cache.peek? operation.request.page = some ref) :
    Ends (operation.proceed ref) pool
      (fun step after => step.Passes call operation.sought? pool after)
      (fun failure after => failure.IsError → pool.Untouched after) := by
  obtain ⟨request, goal⟩ := operation
  obtain ⟨-, hgoal⟩ := hsuits
  rw [ends_proceed_iff]
  cases goal with
  | insert insertion layout placement =>
      obtain ⟨hconcerns, -, htuple, -⟩ := hgoal
      cases placement with
      | inspect index bound held =>
          refine ⟨fun _ _ _ => .refl pool, fun free hfree => ?_⟩
          split
          · exact ⟨trivial, .leave (.refl pool)⟩
          next hnone =>
          have hfull : layout.freeSlots (pool.page ref) = .ok 0 := by
            rwa [Nat.eq_zero_of_not_pos hnone] at hfree
          have hnext : ∀ {middle : Pool}, (∃ locks, middle = { pool with locks }) → Ends
              (inspectFrom request.tx insertion layout (index + 1) bound) middle
              (fun step after => step.Passes call (some (layout,
                request.page :: insertion.table.pages (index + 1) bound)) pool after)
              (fun failure after => failure.IsError → pool.Untouched after) := fun hmiddle =>
            (ends_inspectFrom_full hconcerns htuple request.tx (index + 1) bound hpeek hfull
              hmiddle).mono (fun _ _ hafter => hafter) fun _ _ hafter _ => hafter
          split
          · exact hnext ⟨pool.locks, rfl⟩
          · exact ends_releaseLock_iff.2 (hnext ⟨_, rfl⟩)
      | upgrade => exact h.ends_place_passes hpeek request.tx none
      | append => exact h.ends_place_passes hpeek request.tx none
  | delete layout tuple pooled =>
      have hdelete := layout.ends_delete request.tx (pool.page ref) tuple
      refine (h.ends_change hpeek (hdelete.mono (fun _ _ hafter => hafter)
        fun _ _ hafter _ => hafter)).mono ?_ fun _ _ hafter herror => hafter herror ▸ .refl pool
      intro _ middle hresident
      exact (ends_hold_resident pooled hresident).mono (fun _ _ _ _ => nofun)
        fun _ _ hfault herror => absurd herror hfault
  | _ => exact hheap.elim

theorem ends_insertion_start_passes (hconcerns : pool.Concerns call insertion.table)
    (htuple : call.inserted? = some insertion.tuple)
    (hgrown : insertion.table.layout?.isSome → pool.grown? call = some insertion.table)
    (hkind : insertion.table.kind = .heap layout) (tx : TxId) :
    Ends (insertion.start tx) pool
      (fun step after => step.Passes call (pool.sought? call) pool after)
      (fun _ after => pool.Untouched after) := by
  have hlayout : insertion.table.layout? = some layout := by
    rw [Table.layout?, hkind]
  unfold Insertion.start
  simp only [hkind]
  refine (ends_pageCount insertion.table pool).bind ?_ fun _ _ hafter => hafter ▸ .refl pool
  rintro count pool ⟨rfl, hcount⟩
  have hsought : pool.sought? call = some (layout, insertion.table.pages 0 count) := by
    rw [sought?, hgrown (by rw [hlayout]; rfl), Option.bind_eq_bind, Option.bind_some, hlayout,
      hcount]
    rfl
  rw [hsought]
  exact (ends_inspectFrom_passes hconcerns htuple tx 0 count).mono
    (fun _ _ hafter => hafter.1) fun _ _ hafter => hafter

theorem ends_startDelete_passes {table : Table} (hkind : table.kind = .heap layout) (tx : TxId)
    (tuple : Tuple) (pooled : Bool) (sought : Option (Layout × List PageId)) :
    Ends (startDelete tx table tuple pooled) pool
      (fun step after => step.Passes call sought pool after)
      (fun _ after => pool.Untouched after) := by
  unfold startDelete
  split
  · exact .refl pool
  · simp only [hkind]
    split
    · exact .refl pool
    · exact ⟨trivial, .leave (.refl pool)⟩

theorem ends_start_passes (hchange : call.deed = .change)
    (hheap : ∀ {table}, pool.Concerns call table → ∃ layout, table.kind = .heap layout) :
    Ends call.start pool (fun step after => step.Passes call (pool.sought? call) pool after)
      (fun _ after => pool.Untouched after) := by
  cases call with
  | insert tx number tuple =>
      refine (ends_getTable number pool).bind ?_ fun _ _ hafter => hafter ▸ .refl pool
      intro table middle hmiddle
      obtain ⟨rfl, htable⟩ := hmiddle
      obtain ⟨layout, hkind⟩ := hheap htable
      exact @ends_insertion_start_passes _ (.insert tx number tuple) ⟨table, tuple, true⟩ _ htable
        rfl (grown?_insert htable) hkind tx
  | delete tx tuple =>
      simp only [Call.start]
      cases hrid : tuple.rid with
      | none => exact .refl pool
      | some rid =>
          refine (ends_getTable rid.page.table pool).bind ?_ fun _ _ hafter => hafter ▸ .refl pool
          intro table middle hmiddle
          obtain ⟨rfl, htable⟩ := hmiddle
          obtain ⟨layout, hkind⟩ := hheap ⟨rid, hrid, htable⟩
          exact ends_startDelete_passes hkind tx tuple true _
  | insertInto tx table tuple =>
      obtain ⟨layout, hkind⟩ := hheap rfl
      exact @ends_insertion_start_passes _ (.insertInto tx table tuple) ⟨table, tuple, false⟩ _ rfl
        rfl grown?_insertInto hkind tx
  | deleteFrom tx table tuple =>
      obtain ⟨layout, hkind⟩ := hheap rfl
      exact ends_startDelete_passes hkind tx tuple false _
  | acquire | get | scan => cases hchange

end Stretches

end Pool

end PagePool
