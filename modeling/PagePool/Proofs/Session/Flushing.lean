import Mathlib.Data.List.Find
import PagePool.Proofs.Session.Active
import PagePool.Proofs.Session.Coherence
import PagePool.Proofs.Session.Likeness

/-!
# Early flushes

A flush leaves no more behind than a page object that is clean, and stolen if a transaction is
writing it. Neither makes a difference to what the pool evicts, writes back or shows: a page that is
locked for writing stays in the cache, and the end of its writer takes storage to the same bytes. So
flushes may be put in anywhere in a run, and nobody but storage will notice.
-/

namespace PagePool

open LockRecord Standing Pool

namespace Pool

/-- The objects are the same but for what flushes note on them. -/
structure Matches (pool pool' : Pool) : Prop where
  cache_eq : pool'.cache = pool.cache
  next_eq : pool'.frames.next = pool.frames.next
  latch_eq : ∀ ref, (pool'.frames.frame ref).latch = (pool.frames.frame ref).latch
  id_eq : ∀ ref, (pool'.page ref).id = (pool.page ref).id
  data_eq : ∀ ref, (pool'.page ref).data = (pool.page ref).data
  image_eq : ∀ ref, (pool'.page ref).beforeImage = (pool.page ref).beforeImage

variable {pool pool' middle after after' : Pool} {id : PageId} {ref : PageRef} {page page' : Page}
  {tx : TxId} {ending : Ending}

namespace Matches

theorem refl (pool : Pool) : pool.Matches pool where
  cache_eq := rfl
  next_eq := rfl
  latch_eq _ := rfl
  id_eq _ := rfl
  data_eq _ := rfl
  image_eq _ := rfl

theorem symm (h : pool.Matches pool') : pool'.Matches pool where
  cache_eq := h.cache_eq.symm
  next_eq := h.next_eq.symm
  latch_eq ref := (h.latch_eq ref).symm
  id_eq ref := (h.id_eq ref).symm
  data_eq ref := (h.data_eq ref).symm
  image_eq ref := (h.image_eq ref).symm

theorem trans (h : pool.Matches middle) (h' : middle.Matches after) : pool.Matches after where
  cache_eq := h'.cache_eq.trans h.cache_eq
  next_eq := h'.next_eq.trans h.next_eq
  latch_eq ref := (h'.latch_eq ref).trans (h.latch_eq ref)
  id_eq ref := (h'.id_eq ref).trans (h.id_eq ref)
  data_eq ref := (h'.data_eq ref).trans (h.data_eq ref)
  image_eq ref := (h'.image_eq ref).trans (h.image_eq ref)

theorem of_frames_eq (hcache : pool'.cache = pool.cache) (hframes : pool'.frames = pool.frames) :
    pool.Matches pool' where
  cache_eq := hcache
  next_eq := by rw [hframes]
  latch_eq _ := by rw [hframes]
  id_eq _ := by simp only [Pool.page, hframes]
  data_eq _ := by simp only [Pool.page, hframes]
  image_eq _ := by simp only [Pool.page, hframes]

theorem withCache (h : pool.Matches pool') (cache : Cache) :
    Matches { pool with cache } { pool' with cache } :=
  ⟨rfl, h.next_eq, h.latch_eq, h.id_eq, h.data_eq, h.image_eq⟩

theorem setPage (h : pool.Matches pool') (ref : PageRef) (hid : page'.id = page.id)
    (hdata : page'.data = page.data) (himage : page'.beforeImage = page.beforeImage) :
    (pool.setPage ref page).Matches (pool'.setPage ref page') := by
  have hretains := Retains.setPage pool ref page
  have hretains' := Retains.setPage pool' ref page'
  refine ⟨h.cache_eq, by rw [next_setPage, next_setPage, h.next_eq], fun other => ?_, fun other => ?_,
    fun other => ?_, fun other => ?_⟩
  · rw [hretains.latch_eq, hretains'.latch_eq, h.latch_eq]
  all_goals
    rw [page_setPage, page_setPage, h.next_eq]
    split
  · exact hid
  · exact h.id_eq other
  · exact hdata
  · exact h.data_eq other
  · exact himage
  · exact h.image_eq other

theorem alloc (h : pool.Matches pool') (page : Page) :
    Matches { pool with frames := pool.frames.alloc page }
      { pool' with frames := pool'.frames.alloc page } := by
  have hnext : ∀ frames : Frames, (frames.alloc page).next = frames.next + 1 := fun _ =>
    List.length_append
  have hpage : ∀ (pool : Pool) ref, Pool.page { pool with frames := pool.frames.alloc page } ref =
      if ref = pool.frames.next then page else pool.page ref := fun pool ref =>
    Frames.page_alloc pool.frames page ref
  refine ⟨h.cache_eq, ?_, fun ref => ?_, fun ref => ?_, fun ref => ?_, fun ref => ?_⟩
  · exact (hnext _).trans ((congrArg (· + 1) h.next_eq).trans (hnext _).symm)
  · rw [Frames.latch_alloc, Frames.latch_alloc, h.next_eq, h.latch_eq]
  all_goals
    rw [hpage, hpage, h.next_eq]
    split
  · rfl
  · exact h.id_eq ref
  · rfl
  · exact h.data_eq ref
  · rfl
  · exact h.image_eq ref

end Matches

theorem Flushes.matches {which : PageId → Prop} (h : pool.Flushes which after) :
    pool.Matches after where
  cache_eq := h.retains.cache_eq
  next_eq := h.retains.next_eq
  latch_eq := h.retains.latch_eq
  id_eq ref := by rcases h.page_eq ref with heq | heq <;> simp [heq]
  data_eq ref := by rcases h.page_eq ref with heq | heq <;> simp [heq]
  image_eq ref := by rcases h.page_eq ref with heq | heq <;> simp [heq]

/-- Storage has what the pool shows of a page that nobody has locked for writing. -/
theorem Coherent.stored?_eq_content (hpool : pool.Coherent)
    (hfree : ∀ owner, ¬OwnedBy (pool.locks.table.records id) owner)
    (hsome : (pool.stored? id).isSome) : pool.stored? id = some (pool.content id) := by
  obtain ⟨bytes, hstored⟩ := Option.isSome_iff_exists.1 hsome
  have hstanding : (pool.standing id).stored = some bytes := hstored
  rw [hstored, Pool.content]
  cases hpeek : pool.cache.peek? id with
  | none =>
      rw [content_of_absent (standing_cached_none hpeek), hstanding]
      rfl
  | some ref =>
      have hcached := standing_cached hpeek
      obtain ⟨found, hfound, hsettled⟩ := (hpool.coherent id).settled hfree hcached
      rw [content_of_cached hcached, hsettled.data_eq]
      exact hstanding.symm.trans hfound

/-- The object of a page that was locked by the transaction that has ended. -/
theorem Departs.page_eq_load (h : pool.Departs ending tx after)
    (hheld : HeldBy (pool.locks.table.records id) tx) (hpeek : pool.cache.peek? id = some ref) :
    after.page ref = Page.load id ((pool.standing id).outcome pool.pageSize ending) := by
  have hcached : (after.standing id).cached = some (ref, after.page ref) :=
    standing_cached (by rw [h.retains.cache_eq, hpeek])
  rw [h.finishes.held_eq id hheld, settle_of_cached (standing_cached hpeek)] at hcached
  exact (Prod.mk.inj (Option.some.inj hcached)).2.symm

end Pool

open Pool

/-- Pools that differ by flushes. Both find a victim, and the same one, or neither does. -/
def Likeness.flushing : Likeness where
  Also := Matches
  Literal := True
  Excused _ := False

namespace Likeness

variable {pool pool' after after' : Pool} {id : PageId} {ref : PageRef} {tx : TxId}
  {ending : Ending} (h : flushing.Alike pool pool')
include h

/-- What nobody has locked for writing is spare in both pools or in neither. -/
theorem isSpare_flushing (hpeek : pool.cache.peek? id = some ref)
    (hfree : pool.isPinned id = false) :
    (pool'.frames.frame ref).isSpare = (pool.frames.frame ref).isSpare := by
  have hunowned := unowned_of_free hfree
  have hpeek' : pool'.cache.peek? id = some ref := h.also.cache_eq ▸ hpeek
  have hunowned' : ∀ owner, ¬OwnedBy (pool'.locks.table.records id) owner := h.locks_eq ▸ hunowned
  obtain ⟨_, _, hsettled⟩ := (h.left.coherent id).settled hunowned (standing_cached hpeek)
  obtain ⟨_, _, hsettled'⟩ := (h.right.coherent id).settled hunowned' (standing_cached hpeek')
  have hdirty : (pool.frames.frame ref).page.dirty = none := hsettled.dirty_eq
  have hdirty' : (pool'.frames.frame ref).page.dirty = none := hsettled'.dirty_eq
  have hstolen : (pool.frames.frame ref).page.stolen = false := hsettled.stolen_eq
  have hstolen' : (pool'.frames.frame ref).page.stolen = false := hsettled'.stolen_eq
  simp only [Frame.isSpare, hdirty, hdirty', hstolen, hstolen', h.also.latch_eq]

theorem put_flushing (id : PageId) (ref : PageRef) :
    pool'.cache.put pool'.frames pool'.isPinned id ref =
      pool.cache.put pool.frames pool.isPinned id ref := by
  have hpinned : pool'.isPinned = pool.isPinned := by
    funext page
    rw [isPinned, isPinned, h.locks_eq]
  have hvictim : pool.cache.victim? pool'.frames pool.isPinned =
      pool.cache.victim? pool.frames pool.isPinned := by
    refine List.find?_congr fun entry hmem => ?_
    cases hfree : pool.isPinned entry.1 with
    | true => rfl
    | false =>
        have hpeek := Cache.peek?_of_mem h.left.nodup (List.mem_reverse.1 hmem)
        rw [isSpare_flushing h hpeek hfree]
  simp only [Cache.put, h.also.cache_eq, hpinned, hvictim]

theorem matches_used (id : PageId) : (pool.used id).Matches (pool'.used id) := by
  unfold Pool.used
  rw [h.also.cache_eq]
  exact h.also.withCache _

theorem together_install_flushing (page : Page) :
    Together flushing.Excused (install page) pool (install page) pool'
      (fun _ after _ after' => after.Matches after') Matches := by
  unfold Together
  cases hpeek : pool.cache.peek? page.id with
  | some ref =>
      have hpeek' : pool'.cache.peek? page.id = some ref := h.also.cache_eq ▸ hpeek
      rw [install_of_cached hpeek, install_of_cached hpeek']
      exact matches_used h page.id
  | none =>
      have hpeek' : pool'.cache.peek? page.id = none := h.also.cache_eq ▸ hpeek
      rw [install_of_absent hpeek, install_of_absent hpeek', h.also.next_eq, put_flushing h]
      cases pool.cache.put pool.frames pool.isPinned page.id pool.frames.next with
      | ok result => exact (h.also.withCache result.2).alloc page
      | error failure => exact .inl ⟨rfl, h.also⟩

theorem matches_departed (hafter : pool.Departs ending tx after)
    (hafter' : pool'.Departs ending tx after') : after.Matches after' := by
  have hpages : ∀ ref, (after'.page ref).id = (after.page ref).id ∧
      (after'.page ref).data = (after.page ref).data ∧
      (after'.page ref).beforeImage = (after.page ref).beforeImage := by
    intro ref
    by_cases hheld : ∃ id, HeldBy (pool.locks.table.records id) tx ∧
        pool.cache.peek? id = some ref
    · obtain ⟨id, hheld, hpeek⟩ := hheld
      have hheld' : HeldBy (pool'.locks.table.records id) tx := h.locks_eq ▸ hheld
      have hpeek' : pool'.cache.peek? id = some ref := h.also.cache_eq ▸ hpeek
      rw [hafter.page_eq_load hheld hpeek, hafter'.page_eq_load hheld' hpeek', h.outcome_eq]
      exact ⟨rfl, rfl, rfl⟩
    · have hothers : ∀ id, HeldBy (pool.locks.table.records id) tx →
          pool.cache.peek? id ≠ some ref := fun id hid hpeek => hheld ⟨id, hid, hpeek⟩
      have hothers' : ∀ id, HeldBy (pool'.locks.table.records id) tx →
          pool'.cache.peek? id ≠ some ref := by
        rw [h.locks_eq, h.also.cache_eq]
        exact hothers
      rw [hafter.finishes.page_eq ref hothers, hafter'.finishes.page_eq ref hothers']
      exact ⟨h.also.id_eq ref, h.also.data_eq ref, h.also.image_eq ref⟩
  refine ⟨?_, ?_, fun ref => ?_, fun ref => (hpages ref).1, fun ref => (hpages ref).2.1,
    fun ref => (hpages ref).2.2⟩
  · rw [hafter.retains.cache_eq, hafter'.retains.cache_eq, h.also.cache_eq]
  · rw [hafter.retains.next_eq, hafter'.retains.next_eq, h.also.next_eq]
  · rw [hafter.retains.latch_eq, hafter'.retains.latch_eq, h.also.latch_eq]

omit h in
theorem lawful_flushing : flushing.Lawful where
  ref_eq _ _ _ h _ _ _ hpeek hpeek' := by
    rw [h.also.cache_eq, hpeek] at hpeek'
    exact (Option.some.inj hpeek').symm
  data_eq _ _ _ h := h.also.data_eq
  gated h _ _ := by rw [h.also.cache_eq]
  withLocks h _ := ⟨h.also.cache_eq, h.also.next_eq, h.also.latch_eq, h.also.id_eq, h.also.data_eq,
    h.also.image_eq⟩
  still h hstill hstill' :=
    ((Matches.of_frames_eq hstill.cache_eq hstill.frames_eq).symm.trans h.also).trans
      (.of_frames_eq hstill'.cache_eq hstill'.frames_eq)
  used h id := matches_used h id
  installed h id data _ _ := together_install_flushing h (Page.load id data)
  written h id ref ref' hpeek hpeek' tx data := by
    obtain rfl : ref' = ref := by
      rw [h.also.cache_eq, hpeek] at hpeek'
      exact (Option.some.inj hpeek').symm
    refine h.also.setPage ref' (h.also.id_eq ref') rfl ?_
    simp only [Page.touch, Page.withData, h.also.image_eq, h.also.data_eq]
  marked h id ref ref' hpeek hpeek' tx := by
    obtain rfl : ref' = ref := by
      rw [h.also.cache_eq, hpeek] at hpeek'
      exact (Option.some.inj hpeek').symm
    exact h.also.setPage ref' (h.also.id_eq ref') (h.also.data_eq ref') (h.also.image_eq ref')
  appended h happends happends' :=
    ((Matches.of_frames_eq happends.cache_eq happends.frames_eq).symm.trans h.also).trans
      (.of_frames_eq happends'.cache_eq happends'.frames_eq)
  flushed h hflushes hflushes' := (hflushes.matches.symm.trans h.also).trans hflushes'.matches
  departed h hdeparts hdeparts' := matches_departed h hdeparts hdeparts'

end Likeness

def Command.IsFlush : Command → Prop
  | .flushPage _ | .flushTransaction _ | .flushAll => True
  | _ => False

def Event.IsFlush : Event → Prop
  | .command issued => issued.IsFlush
  | _ => False

/-- A flush that has succeeded. -/
def Entry.IsFlush : Entry → Prop
  | .command issued result => issued.IsFlush ∧ result = .ok .unit
  | .call .. => False

/-- The second list is the first one with items put in anywhere. -/
inductive Interspersed {Item : Type} (extra : Item → Prop) : List Item → List Item → Prop where
  | nil : Interspersed extra [] []
  | keep {items items' : List Item} (item : Item) (h : Interspersed extra items items') :
      Interspersed extra (item :: items) (item :: items')
  | add {items items' : List Item} {item : Item} (hextra : extra item)
      (h : Interspersed extra items items') : Interspersed extra items (item :: items')

theorem Interspersed.append {Item : Type} {extra : Item → Prop} {items items' : List Item}
    (h : Interspersed extra items items') (news : List Item) :
    Interspersed extra (news ++ items) (news ++ items') := by
  induction news with
  | nil => exact h
  | cons item news ih => exact .keep item ih

theorem Entry.loans_cons_congr {log log' : List Entry} (h : Entry.loans log' = Entry.loans log)
    (entry : Entry) : Entry.loans (entry :: log') = Entry.loans (entry :: log) := by
  rcases entry with ⟨id, call, ⟨result, tuple⟩⟩ | ⟨command, result⟩
  · cases call with
    | get tx page mode =>
        rcases result with failure | answer
        · exact h
        · cases answer <;> simp only [Entry.loans, h]
    | _ => exact h
  · cases command with
    | finish ending tx => cases result <;> simp only [Entry.loans, h]
    | release tx page => simp only [Entry.loans, h]
    | _ => exact h

theorem Interspersed.loans_eq {log log' : List Entry} (h : Interspersed Entry.IsFlush log log') :
    Entry.loans log' = Entry.loans log := by
  induction h with
  | nil => rfl
  | @keep _ _ entry _ ih => exact Entry.loans_cons_congr ih entry
  | @add _ _ entry hflush _ ih =>
      rcases entry with _ | ⟨command, result⟩
      · cases hflush
      · cases command with
        | flushPage | flushTransaction | flushAll => exact ih
        | _ => cases hflush.1

namespace Likeness

variable {session session' : Session} {pool pool' : Pool}

theorem eq_of_forall₂ {Item : Type} {rel : Item → Item → Prop} {items items' : List Item}
    (h : List.Forall₂ rel items items') (hrel : ∀ item item', rel item item' → item' = item) :
    items' = items := by
  induction h with
  | nil => rfl
  | cons hitem _ ih => rw [hrel _ _ hitem, ih]

theorem refs_flushing {refs refs' : List PageRef}
    (h : List.Forall₂ (flushing.Objects pool pool') refs refs') : refs' = refs :=
  eq_of_forall₂ h fun _ _ hobjects => hobjects.ref_eq trivial

theorem tasks_flushing (h : flushing.Rosters pool pool' session session') :
    session'.tasks = session.tasks := by
  refine eq_of_forall₂ h.tasks fun task task' htask => ?_
  obtain ⟨id, call, ⟨request, goal⟩, wait⟩ := task
  obtain ⟨id', call', ⟨request', goal'⟩, wait'⟩ := task'
  obtain ⟨rfl, rfl, rfl, hgoals, rfl⟩ := htask
  cases hgoals with
  | same => rfl
  | stamp hchanged => rw [refs_flushing hchanged]

theorem handles_flushing (h : flushing.Rosters pool pool' session session') :
    session'.handles = session.handles := by
  refine eq_of_forall₂ h.handles fun entry entry' hentry => ?_
  obtain ⟨number, ⟨tx, mode, ref⟩⟩ := entry
  obtain ⟨number', ⟨tx', mode', ref'⟩⟩ := entry'
  obtain ⟨rfl, rfl, rfl, hobjects⟩ := hentry
  have href : ref' = ref := hobjects.ref_eq trivial
  rw [href]

theorem news_flushing {news news' : List Entry}
    (h : List.Forall₂ (flushing.Entries pool pool') news news') : news' = news := by
  refine eq_of_forall₂ h fun entry entry' hentry => ?_
  cases hentry with
  | read hresult => rw [hresult trivial]
  | command => rfl
  | @call id call outcome outcome' houtcome =>
      obtain ⟨result, tuple⟩ := outcome
      obtain ⟨result', tuple'⟩ := outcome'
      obtain ⟨hresult, rfl⟩ := houtcome
      cases hresult with
      | same => rfl
      | page hobjects => rw [hobjects.ref_eq trivial]

end Likeness

namespace Session

open Likeness

/-- A session runs beside another one in which pages have been flushed early. -/
structure Accompanies (session session' : Session) : Prop where
  sessions : Likeness.flushing.Sessions session session'
  left : session.Sound
  right : session'.Sound
  log : Interspersed Entry.IsFlush session.log session'.log
  quiet : session'.pool.locks.notified = []

variable {session session' : Session} {event : Event}

/-- If nobody is notified then nobody is woken. -/
theorem deliver_of_quiet (h : session.pool.locks.notified = []) : session.deliver = session := by
  have hlocks : { session.pool.locks with notified := [] } = session.pool.locks := by
    rw [← h]
  have htasks : session.tasks.map (notifyTask session.pool.locks) = session.tasks := by
    refine List.map_congr_left (fun task _ => ?_) |>.trans session.tasks.map_id
    unfold notifyTask
    split
    · next hwait => simp only [h, List.contains_nil, Bool.or_false, ← hwait, id]
    · rfl
  unfold deliver
  simp only [hlocks, htasks]

theorem Accompanies.call?_eq (h : session.Accompanies session') (event : Event) :
    session'.call? event = session.call? event := by
  have htasks := tasks_flushing h.sessions.rosters
  cases event <;> simp only [call?, task?, htasks]

theorem Accompanies.hasRoom (h : session.Accompanies session') (hroom : session.HasRoom event) :
    session'.HasRoom event := by
  intro call hcall
  rw [h.call?_eq] at hcall
  exact h.sessions.pools.hasRoomFor (hroom call hcall)

theorem Accompanies.permits (h : session.Accompanies session') (hpermits : session.Permits event) :
    session'.Permits event := by
  have htasks := tasks_flushing h.sessions.rosters
  have hhandles := handles_flushing h.sessions.rosters
  have hloans : session'.loans = session.loans := h.log.loans_eq
  have hidle : ∀ tx, session'.Idle tx ↔ session.Idle tx := fun tx => by rw [Idle, Idle, htasks]
  have hmatches : session.pool.Matches session'.pool := h.sessions.pools.also
  cases event with
  | evaluate | wake | load => trivial
  | start id call => exact ⟨(hidle _).2 hpermits.1, h.sessions.pools.admits hpermits.2⟩
  | command command =>
      cases command with
      | read | flushPage | flushTransaction | flushAll => trivial
      | mark | discardPage | completeLocks => cases hpermits
      | finish ending tx => exact (hidle tx).2 hpermits
      | write handle tx offset chunk =>
          have hwritable : session.Writable handle tx := hpermits
          change session'.Writable handle tx
          simpa only [Writable, handle?, hhandles, hloans] using hwritable
      | release tx page =>
          refine ⟨(hidle tx).2 hpermits.1, ?_⟩
          have hclean := hpermits.2
          simpa only [Unmodified, h.sessions.pools.locks_eq, hmatches.cache_eq, hmatches.image_eq]
            using hclean

/-- The same event on both sides. -/
theorem Accompanies.step (h : session.Accompanies session') (hroom : session.HasRoom event)
    (hpermits : session.Permits event) :
    (session.step event).Accompanies (session'.step event) := by
  have hpermits' := h.permits hpermits
  obtain ⟨news, news', hlog, hlog', ⟨hsessions, hnews⟩ | ⟨entry, _, _, _, hexcused⟩⟩ :=
    h.sessions.step lawful_flushing h.left h.right hroom hpermits hpermits'
  · refine ⟨hsessions, (h.left.step hroom hpermits).1, (h.right.step (h.hasRoom hroom) hpermits').1,
      ?_, rfl⟩
    rw [hlog, hlog', news_flushing hnews]
    exact h.log.append news
  · exact hexcused.elim

theorem Accompanies.flushed (h : session.Accompanies session') {command : Command}
    (hcommand : command.IsFlush) {step : Action Unit} {which : PageId → Prop}
    (haction : session'.action command = do step; return .unit)
    (hpermits : session'.Permits (.command command))
    (hflushes : Ends step session'.pool (fun _ after => session'.pool.Flushes which after)
      fun _ _ => False) :
    session.Accompanies (session'.step (.command command)) := by
  obtain ⟨_, after, hrun, hafter⟩ := hflushes.succeeds
  have hroom : session'.HasRoom (.command command) := fun _ hcall => by cases hcall
  have hsound := (h.right.step hroom hpermits).1
  have hresult : session'.action command session'.pool = .ok .unit after := by
    rw [haction]
    simp only [bind, EStateM.bind, hrun]
    rfl
  have hquiet : after.locks.notified = [] := by rw [hafter.locks_eq, h.quiet]
  have hstep : session'.step (.command command) =
      { session' with
        pool := after
        log := .command command (.ok .unit) :: session'.log } := by
    change (session'.execute command).deliver = _
    rw [execute_ok hresult]
    exact deliver_of_quiet hquiet
  have hview : after.view = session.pool.view := by
    rw [hafter.view_eq h.right.coherent, h.sessions.pools.view_eq]
  have hrosters := h.sessions.rosters.grows ⟨Nat.le_refl _, fun _ _ => rfl⟩ (hafter.evolves 0).grows
  rw [hstep] at hsound ⊢
  exact ⟨⟨⟨h.left.coherent, hsound.coherent, hview, h.sessions.pools.also.trans hafter.matches⟩,
    hrosters.now_eq, hrosters.tasks, hrosters.handles⟩, h.left, hsound, .add ⟨hcommand, rfl⟩ h.log,
    hquiet⟩

/-- A flush on the one side. -/
theorem Accompanies.flush (h : session.Accompanies session') (hflush : event.IsFlush) :
    session'.HasRoom event ∧ session'.Permits event ∧
      session.Accompanies (session'.step event) := by
  have hpool := h.right.coherent
  cases event with
  | command command =>
      have hroom : session'.HasRoom (.command command) := fun _ hcall => by cases hcall
      refine ⟨hroom, ?_⟩
      cases command with
      | flushPage page =>
          exact ⟨trivial, h.flushed hflush rfl trivial (ends_flushPage_flushes hpool page)⟩
      | flushTransaction tx =>
          exact ⟨trivial, h.flushed hflush rfl trivial (ends_flushTransaction_flushes hpool tx)⟩
      | flushAll => exact ⟨trivial, h.flushed hflush rfl trivial (ends_flushAll_flushes hpool)⟩
      | _ => cases hflush
  | _ => cases hflush

theorem Accompanies.run (h : session.Accompanies session') {events events' : List Event}
    (hevents : Interspersed Event.IsFlush events events') (hfollows : session.Follows events) :
    session'.Follows events' ∧ (session.run events).Accompanies (session'.run events') := by
  induction hevents generalizing session session' with
  | nil => exact ⟨trivial, h⟩
  | keep event _ ih =>
      obtain ⟨hroom, hpermits, hrest⟩ := hfollows
      have hafter := ih (h.step hroom hpermits) hrest
      exact ⟨⟨h.hasRoom hroom, h.permits hpermits, hafter.1⟩, hafter.2⟩
  | add hflush _ ih =>
      obtain ⟨hroom, hpermits, hstep⟩ := h.flush hflush
      have hafter := ih hstep hfollows
      exact ⟨⟨hroom, hpermits, hafter.1⟩, hafter.2⟩

theorem Accompanies.start {pool : Pool} (hready : pool.Ready) (hquiet : pool.locks.notified = [])
    (now : Nat) : (ofPool pool now).Accompanies (ofPool pool now) := by
  have hsound := Sound.ofPool hready now
  exact ⟨⟨⟨hsound.coherent, hsound.coherent, rfl, .refl pool⟩, rfl, .nil, .nil⟩, hsound, hsound, .nil,
    hquiet⟩

/-- **Early flushes.** A run goes on with flushes put in anywhere. Both runs give the same results,
up to the results of the flushes, have the same locks, and keep the same pages in the cache, in the
order in which they were used. Storage is the same whenever no transaction is under way. This holds
at all corresponding points, since runs up to there are such runs themselves. A heap table has fewer
than 2 ^ 32 pages whenever an insertion into it goes on. -/
theorem flushes_invisible {pool : Pool} {now : Nat} {events events' : List Event}
    (hready : pool.Ready) (hquiet : pool.locks.notified = [])
    (h : (ofPool pool now).Follows events)
    (hevents : Interspersed Event.IsFlush events events') :
    let plain := (ofPool pool now).run events
    let flushed := (ofPool pool now).run events'
    (ofPool pool now).Follows events' ∧ Interspersed Entry.IsFlush plain.log flushed.log ∧
      flushed.tasks = plain.tasks ∧ flushed.handles = plain.handles ∧
      flushed.pool.locks = plain.pool.locks ∧ flushed.pool.cache = plain.pool.cache ∧
      (∀ ref, (flushed.pool.page ref).data = (plain.pool.page ref).data) ∧
      flushed.pool.content = plain.pool.content ∧
      ((∀ tx, Event.activateAll events (fun _ => false) tx = false) →
        ∀ id, flushed.pool.stored? id = plain.pool.stored? id) := by
  intro plain flushed
  obtain ⟨hfollows, hafter⟩ := (Accompanies.start hready hquiet now).run hevents h
  have hpools : Likeness.flushing.Alike plain.pool flushed.pool := hafter.sessions.pools
  refine ⟨hfollows, hafter.log, tasks_flushing hafter.sessions.rosters,
    handles_flushing hafter.sessions.rosters, hpools.locks_eq, hpools.also.cache_eq,
    hpools.also.data_eq, funext hpools.content_eq, fun hended id => ?_⟩
  have hruns := h.runs (.ofPool hready now) (.start hready now)
  have hfree : ∀ tx, ¬HeldBy (plain.pool.locks.table.records id) tx := fun tx hheld => by
    cases (hruns.locks hheld).symm.trans (hended tx)
  have hunowned : ∀ owner, ¬OwnedBy (plain.pool.locks.table.records id) owner := fun owner howner =>
    hfree owner howner.heldBy
  cases hstored : plain.pool.stored? id with
  | none =>
      rw [← Option.not_isSome_iff_eq_none, hpools.isSome_stored?, hstored]
      simp
  | some bytes =>
      have hsome : (plain.pool.stored? id).isSome := Option.isSome_of_eq_some hstored
      rw [← hstored, hpools.left.stored?_eq_content hunowned hsome,
        hpools.right.stored?_eq_content (hpools.locks_eq ▸ hunowned)
          ((hpools.isSome_stored? id).2 hsome),
        hpools.content_eq]

/-- A page is written twice, and its writer aborts. -/
def repenting : List Event :=
  [.start 0 (.get 1 ⟨0, 0⟩ .exclusive), .evaluate 0, .command (.write 0 1 0 [9]),
    .command (.write 0 1 1 [8]), .command (.finish .abort 1)]

/-- The same with flushes in between. -/
def repentingFlushed : List Event :=
  [.start 0 (.get 1 ⟨0, 0⟩ .exclusive), .evaluate 0, .command (.write 0 1 0 [9]),
    .command (.flushPage ⟨0, 0⟩), .command (.write 0 1 1 [8]), .command .flushAll,
    .command (.finish .abort 1)]

theorem interspersed_repenting : Interspersed Event.IsFlush repenting repentingFlushed :=
  .keep _ (.keep _ (.keep _ (.add trivial (.keep _ (.add trivial (.keep _ .nil))))))

/-- The writes go to storage at once, and the abort takes them back there. -/
theorem flushes_invisible_repenting :
    let plain := (ofPool .onePlace 0).run repenting
    let flushed := (ofPool .onePlace 0).run repentingFlushed
    Interspersed Entry.IsFlush plain.log flushed.log ∧ flushed.pool.cache = plain.pool.cache ∧
      flushed.pool.stored? ⟨0, 0⟩ = some [1, 2] := by
  intro plain flushed
  obtain ⟨_, hlog, _, _, _, hcache, _, _, hstored⟩ :=
    flushes_invisible Pool.onePlace_ready rfl
      (by decide_cbv : (ofPool .onePlace 0).Follows repenting) interspersed_repenting
  have hended := hstored (Event.activateAll_eq_false (by decide_cbv)) ⟨0, 0⟩
  exact ⟨hlog, hcache, hended.trans (by decide_cbv)⟩

end Session

end PagePool
