import PagePool.Proofs.Session.Coherence
import PagePool.Proofs.Session.Likeness
import PagePool.Proofs.Session.Stretch

/-!
# The cache is transparent

How many pages fit into the cache makes no difference to what a pool does, as long as it finds a
victim when it needs one. Pools of different capacities hold other objects, but they agree on the
bytes in storage and on the drafts, the objects of the pages that somebody is writing: a draft never
leaves the cache, and any other object can be loaded again as it was.
-/

namespace PagePool

open LockRecord Standing Pool

namespace Standing

/-- The object in the cache if a transaction is writing it. -/
def draft? (standing : Standing) : Option Page :=
  standing.cached.bind fun entry => if entry.2.beforeImage.isSome then some entry.2 else none

variable {size : Nat} {id : PageId} {tx : TxId} {before after standing : Standing} {ref : PageRef}
  {page : Page} {ending : Ending}

theorem draft?_of_absent (h : standing.cached = none) : standing.draft? = none := by
  simp only [draft?, h, Option.bind_none]

theorem draft?_of_written (h : standing.cached = some (ref, page))
    (himage : page.beforeImage.isSome) : standing.draft? = some page := by
  simp only [draft?, h, Option.bind_some, himage, if_true]

theorem draft?_of_settled (h : standing.cached = some (ref, page))
    (himage : page.beforeImage = none) : standing.draft? = none := by
  simp [draft?, h, himage]

theorem draft?_eq_some (h : standing.draft? = some page) :
    ∃ ref, standing.cached = some (ref, page) ∧ page.beforeImage.isSome := by
  obtain ⟨⟨ref, object⟩, hcached, hobject⟩ := Option.bind_eq_some_iff.1 h
  dsimp only at hobject
  split at hobject
  · next himage =>
    cases hobject
    exact ⟨ref, hcached, himage⟩
  · cases hobject

namespace Coherent

variable (hstanding : standing.Coherent id)
include hstanding

/-- Whoever only looks at pages lets every draft stay. -/
theorem draft?_move (h : Move size .access id tx standing after) : after.draft? = standing.draft? := by
  cases h with
  | load hcached => rw [draft?_of_absent hcached, draft?_of_settled rfl rfl]
  | evict hcached hclean hstolen hfree =>
      obtain ⟨_, _, hsettled⟩ := hstanding.settled hfree hcached
      rw [draft?_of_settled hcached hsettled.image_eq, draft?_of_absent rfl]
  | grant => rfl
  | flush hdeed => cases hdeed
  | write hdeed => cases hdeed
  | mark hdeed => cases hdeed
  | drop hdeed => cases hdeed
  | append hdeed => cases hdeed

theorem draft?_moves (h : Moves size .access id tx standing after) :
    after.draft? = standing.draft? :=
  h.induction (motive := fun after => after.draft? = standing.draft?) hstanding rfl
    fun hcoherent hmove heq => (hcoherent.draft?_move hmove).trans heq

theorem draft?_flush : standing.flush.draft? = standing.draft?.map Page.cleaned := by
  cases hcached : standing.cached with
  | none => rw [flush_of_absent hcached, draft?_of_absent hcached]; rfl
  | some entry =>
      obtain ⟨ref, page⟩ := entry
      by_cases hdirty : page.dirty.isSome
      · obtain ⟨bytes, _, _, hfaithful⟩ := hstanding.resident ref page hcached
        have himage := hfaithful.image_of_dirty hdirty
        have hflushed : page.flushed.beforeImage.isSome := himage
        rw [flush_of_dirty hcached hdirty, draft?_of_written hcached himage,
          draft?_of_written rfl hflushed, Option.map_some, Page.cleaned_of_dirty hdirty]
      · have hclean : page.dirty = none := by simpa using hdirty
        rw [flush_of_clean hcached hclean]
        cases hdraft : standing.draft? with
        | none => rfl
        | some draft =>
            obtain ⟨_, hsame, _⟩ := draft?_eq_some hdraft
            cases hcached.symm.trans hsame
            rw [Option.map_some, Page.cleaned_of_clean hclean]

/-- What a flush takes to storage is a draft. -/
theorem stored_flush : standing.flush.stored =
    match standing.draft? with
    | none => standing.stored
    | some page => if page.dirty.isSome then some page.data else standing.stored := by
  cases hcached : standing.cached with
  | none => rw [flush_of_absent hcached, draft?_of_absent hcached]
  | some entry =>
      obtain ⟨ref, page⟩ := entry
      by_cases hdirty : page.dirty.isSome
      · obtain ⟨bytes, _, _, hfaithful⟩ := hstanding.resident ref page hcached
        rw [flush_of_dirty hcached hdirty,
          draft?_of_written hcached (hfaithful.image_of_dirty hdirty)]
        exact (if_pos hdirty).symm
      · have hclean : page.dirty = none := by simpa using hdirty
        rw [flush_of_clean hcached hclean]
        cases hdraft : standing.draft? with
        | none => rfl
        | some draft =>
            obtain ⟨_, hsame, _⟩ := draft?_eq_some hdraft
            cases hcached.symm.trans hsame
            exact (if_neg hdirty).symm

end Coherent

theorem draft?_settle : (standing.settle size ending id).draft? = none := by
  cases hcached : (standing.settle size ending id).cached with
  | none => exact draft?_of_absent hcached
  | some entry => exact draft?_of_settled hcached (imageless_settle hcached)

@[simp]
theorem draft?_unlock : (standing.unlock tx).draft? = standing.draft? := rfl

end Standing

namespace Pool

/-- Storage is the same, and so are the drafts. No read has to wait for a gate. -/
structure Agrees (pool pool' : Pool) : Prop where
  stored?_eq : ∀ id, pool'.stored? id = pool.stored? id
  draft?_eq : ∀ id, (pool'.standing id).draft? = (pool.standing id).draft?
  gate_eq : ∀ ref, (pool.outline ref).gateClosed = false

variable {pool pool' after after' : Pool} {id : PageId} {ref ref' : PageRef} {tx : TxId}

theorem Agrees.mono (h : pool.Agrees pool')
    (hstored : ∀ id, after.stored? id = pool.stored? id)
    (hstored' : ∀ id, after'.stored? id = pool'.stored? id)
    (hdraft : ∀ id, (after.standing id).draft? = (pool.standing id).draft?)
    (hdraft' : ∀ id, (after'.standing id).draft? = (pool'.standing id).draft?)
    (houtline : ∀ ref, after.outline ref = pool.outline ref) : after.Agrees after' where
  stored?_eq id := by rw [hstored, hstored', h.stored?_eq]
  draft?_eq id := by rw [hdraft, hdraft', h.draft?_eq]
  gate_eq ref := by rw [houtline, h.gate_eq]

/-- Flushes and ends keep the gates open. -/
theorem Agrees.of_retains (h : pool.Agrees pool') (hretains : pool.Retains after)
    (hstandings : ∀ id, (after'.standing id).stored = (after.standing id).stored ∧
      (after'.standing id).draft? = (after.standing id).draft?) : after.Agrees after' where
  stored?_eq id := (hstandings id).1
  draft?_eq id := (hstandings id).2
  gate_eq ref := by rw [hretains.outline_eq, h.gate_eq]

theorem standing_used (hpool : pool.Coherent) (id other : PageId) :
    (pool.used id).standing other = pool.standing other := by
  simp only [standing, peek?_used hpool]
  rfl

end Pool

/-- A failure to find a victim. -/
def Failure.isExhausted : Failure → Bool
  | .error reason => reason.kind = .resourceExhausted
  | .fault _ => false

/-- Pools with caches of different capacities. -/
def Likeness.resizing : Likeness where
  Also := Agrees
  Literal := False
  Excused failure := failure.isExhausted

namespace Likeness

variable {pool pool' after after' : Pool} {id : PageId} {ref ref' : PageRef} {tx : TxId}

section Pages

variable (h : resizing.Alike pool pool') (hpeek : pool.cache.peek? id = some ref)
  (hpeek' : pool'.cache.peek? id = some ref')
include h hpeek hpeek'

/-- Where both caches have a page, they have the same of it. -/
theorem page_eq_resizing : pool'.page ref' = pool.page ref := by
  have hcached := standing_cached hpeek
  have hcached' := standing_cached hpeek'
  have hdraft := h.also.draft?_eq id
  cases himage : (pool.page ref).beforeImage with
  | some image =>
      rw [draft?_of_written hcached (Option.isSome_of_eq_some himage)] at hdraft
      obtain ⟨_, hsame, _⟩ := draft?_eq_some hdraft
      rw [hcached'] at hsame
      exact (Prod.mk.inj (Option.some.inj hsame)).2
  | none =>
      rw [draft?_of_settled hcached himage] at hdraft
      have himage' : (pool'.page ref').beforeImage = none := by
        rw [← Option.not_isSome_iff_eq_none]
        intro hsome
        cases hdraft.symm.trans (draft?_of_written hcached' hsome)
      -- without an image, both are what a load of the bytes that both pools show gives
      obtain ⟨_, _, _, hfaithful⟩ := (h.left.coherent id).resident _ _ hcached
      obtain ⟨_, _, _, hfaithful'⟩ := (h.right.coherent id).resident _ _ hcached'
      have hsettled := hfaithful.settled himage
      have hsettled' := hfaithful'.settled himage'
      rw [Page.eq_load (h.left.named hpeek) hsettled.dirty_eq himage hsettled.stolen_eq,
        Page.eq_load (h.right.named hpeek') hsettled'.dirty_eq himage' hsettled'.stolen_eq,
        h.data_eq hpeek hpeek']

/-- Both pools go on to the same object of a page. -/
theorem agrees_setPage {page : Page} :
    (pool.setPage ref page).Agrees (pool'.setPage ref' page) where
  stored?_eq := h.also.stored?_eq
  draft?_eq other := by
    rw [standing_setPage h.left.toSound hpeek, standing_setPage h.right.toSound hpeek']
    split
    · rfl
    · exact h.also.draft?_eq other
  gate_eq := h.also.gate_eq

end Pages

section Laws

variable {which : PageId → Prop} {table : Table} {ending : Ending}

/-- Whatever comes into the cache, and whatever goes, is no draft. -/
theorem together_install_resizing (h : resizing.Alike pool pool') {data : Bytes}
    (hstored : pool.cache.peek? id = none → pool.stored? id = some data)
    (hstored' : pool'.cache.peek? id = none → pool'.stored? id = some data) :
    Together resizing.Excused (install (Page.load id data)) pool (install (Page.load id data)) pool'
      (fun _ after _ after' => after.Agrees after') Agrees := by
  have hinstalls : ∀ {pool : Pool}, pool.Coherent →
      (pool.cache.peek? id = none → pool.stored? id = some data) →
      Ends (install (Page.load id data)) pool
        (fun _ after => (∀ id, after.stored? id = pool.stored? id) ∧
          (∀ id, (after.standing id).draft? = (pool.standing id).draft?) ∧
          ∀ ref, after.outline ref = pool.outline ref)
        (fun failure _ => failure.isExhausted) := by
    intro pool hpool hstored
    apply ((ends_install hpool 0 hstored).and (ends_install_volumes _ pool)).mono
    · rintro ref after ⟨⟨hevolves, _, _⟩, hsize, htables, hvolumes⟩
      refine ⟨fun other => ?_, fun other => ?_, fun other => ?_⟩
      · simp only [stored?, table?, Pool.volume, htables, hvolumes, hsize]
      · exact (hpool.coherent other).draft?_moves (hevolves.moves other)
      · simp only [outline, Pool.volume, hvolumes, hsize]
    · rintro failure after ⟨_, _, resident, rfl⟩
      rfl
  refine Together.of_ends (hinstalls h.left hstored) (hinstalls h.right hstored') ?_
    (fun _ _ _ _ hfailure _ => .inr (.inl hfailure)) (fun _ _ _ _ hfailure _ => hfailure)
    fun _ _ _ _ _ hfailure => hfailure
  rintro _ after _ after' ⟨hstored, hdraft, houtline⟩ ⟨hstored', hdraft', _⟩
  exact h.also.mono hstored hstored' hdraft hdraft' houtline

theorem agrees_appended (h : resizing.Alike pool pool') (happends : pool.Appends table after)
    (happends' : pool'.Appends table after') : after.Agrees after' where
  stored?_eq id := by
    rw [happends.stored?_eq, happends'.stored?_eq, h.view_eq, h.pageSize_eq, h.also.stored?_eq]
  draft?_eq id := by
    have hdraft := h.also.draft?_eq id
    simp only [draft?, standing, Pool.page, happends.cache_eq, happends.frames_eq,
      happends'.cache_eq, happends'.frames_eq] at hdraft ⊢
    exact hdraft
  gate_eq ref := by
    rw [happends.outline_eq]
    by_cases hsame : ref = table.volume
    · rw [hsame, Function.update_self]
      exact h.also.gate_eq table.volume
    · rw [Function.update_of_ne hsame]
      exact h.also.gate_eq ref

theorem agrees_flushed (h : resizing.Alike pool pool') (hflushes : pool.Flushes which after)
    (hflushes' : pool'.Flushes which after') : after.Agrees after' := by
  refine h.also.of_retains hflushes.retains fun id => ?_
  have hstored : (pool'.standing id).stored = (pool.standing id).stored := h.also.stored?_eq id
  have hdraft := h.also.draft?_eq id
  by_cases hwhich : which id
  · rw [hflushes.standing_eq id hwhich, hflushes'.standing_eq id hwhich,
      (h.left.coherent id).stored_flush, (h.right.coherent id).stored_flush,
      (h.left.coherent id).draft?_flush, (h.right.coherent id).draft?_flush, hdraft, hstored]
    exact ⟨rfl, rfl⟩
  · rw [hflushes.others_eq id hwhich, hflushes'.others_eq id hwhich]
    exact ⟨hstored, hdraft⟩

theorem agrees_departed (h : resizing.Alike pool pool') (hdeparts : pool.Departs ending tx after)
    (hdeparts' : pool'.Departs ending tx after') : after.Agrees after' := by
  refine h.also.of_retains hdeparts.retains fun id => ?_
  have hstored : (pool'.standing id).stored = (pool.standing id).stored := h.also.stored?_eq id
  by_cases hheld : HeldBy (pool.locks.table.records id) tx
  · have hheld' : HeldBy (pool'.locks.table.records id) tx := h.locks_eq ▸ hheld
    have hsettled : ((pool'.standing id).settle pool'.pageSize ending id).stored =
        ((pool.standing id).settle pool.pageSize ending id).stored := by
      rw [(h.left.coherent id).stored_settle, (h.right.coherent id).stored_settle, hstored,
        h.outcome_eq]
    rw [hdeparts.finishes.held_eq id hheld, hdeparts'.finishes.held_eq id hheld', draft?_unlock,
      draft?_unlock, draft?_settle, draft?_settle]
    exact ⟨hsettled, rfl⟩
  · have hothers : ¬HeldBy (pool'.locks.table.records id) tx := h.locks_eq ▸ hheld
    rw [hdeparts.finishes.others_eq id hheld, hdeparts'.finishes.others_eq id hothers]
    exact ⟨hstored, h.also.draft?_eq id⟩

theorem lawful_resizing : resizing.Lawful where
  ref_eq := False.elim
  data_eq := False.elim
  gated {pool _} h id hgated := by
    have hopen : ∀ volume, (pool.volume volume).gateClosed = false := h.also.gate_eq
    unfold isGated at hgated
    cases htable : pool.table? id.table <;> simp [htable, hopen] at hgated
  withLocks h _ := h.also.mono (fun _ => rfl) (fun _ => rfl) (fun _ => rfl) (fun _ => rfl)
    fun _ => rfl
  still h hstill hstill' := h.also.mono hstill.stored?_eq hstill'.stored?_eq
    (fun id => congrArg draft? (hstill.standing_eq id))
    (fun id => congrArg draft? (hstill'.standing_eq id)) hstill.outline_eq
  used h id := h.also.mono (fun _ => rfl) (fun _ => rfl)
    (fun other => congrArg draft? (standing_used h.left id other))
    (fun other => congrArg draft? (standing_used h.right id other)) fun _ => rfl
  installed h _ _ hstored hstored' := together_install_resizing h hstored hstored'
  written h _ _ _ hpeek hpeek' tx data := by
    rw [page_eq_resizing h hpeek hpeek']
    exact agrees_setPage h hpeek hpeek'
  marked h _ _ _ hpeek hpeek' tx := by
    rw [page_eq_resizing h hpeek hpeek']
    exact agrees_setPage h hpeek hpeek'
  appended h happends happends' := agrees_appended h happends happends'
  flushed h hflushes hflushes' := agrees_flushed h hflushes hflushes'
  departed h hdeparts hdeparts' := agrees_departed h hdeparts hdeparts'

end Laws

end Likeness

/-- An answer with the bytes of the page that is handed out in the place of its object. -/
def Answer.shown (pool : Pool) : Answer → Answer
  | .page ref => .bytes (pool.page ref).data
  | answer => answer

/-- What an entry shows when it is made. A read through a handle is left out: a page that was got
for reading may be evicted before its handle is used, and its object is left behind as it was. -/
def Entry.shown? (pool : Pool) : Entry → Option Entry
  | .command (.read _) _ => none
  | .command issued result => some (.command issued result)
  | .call id request outcome =>
      some (.call id request { outcome with result := outcome.result.map (Answer.shown pool) })

/-- The entry is a failure to find a victim. -/
def Entry.isExhausted (entry : Entry) : Bool :=
  match entry.result with
  | .ok _ => false
  | .error failure => failure.isExhausted

/-- What can be seen of a session at an event: how calls and commands have ended, the locks, the
bytes that the pool shows of every page, and those in storage. -/
structure Sight where
  entries : List Entry
  locks : LockManager
  content : PageId → Bytes
  stored? : PageId → Option Bytes

namespace Session

/-- Some call or command could not find a victim. -/
def isExhausted (session : Session) : Bool :=
  session.log.any Entry.isExhausted

def sight (before after : Session) : Sight where
  entries := (after.log.take (after.log.length - before.log.length)).filterMap
    (Entry.shown? after.pool)
  locks := after.pool.locks
  content := after.pool.content
  stored? := after.pool.stored?

def sights : Session → List Event → List Sight
  | _, [] => []
  | session, event :: rest => session.sight (session.step event) :: (session.step event).sights rest

variable {session session' : Session} {event : Event} {events : List Event}

/-- The log only grows. -/
theorem Sound.log_step (h : session.Sound) (hpermits : session.Permits event) :
    session.log <:+ (session.step event).log := by
  cases hcall : session.call? event with
  | none =>
      rcases (step_of_call_eq_none hcall).2 with hlog | ⟨command, result, _, hlog⟩ <;> rw [hlog]
      exact List.suffix_cons ..
  | some call =>
      cases h.stretch hpermits hcall with
      | waits _ _ hlog => rw [hlog]
      | asks _ _ _ hlog => rw [hlog]
      | ends _ _ _ hlog =>
          rw [hlog]
          exact List.suffix_cons ..

theorem Follows.log_run (h : session.Follows events) (hsound : session.Sound) :
    session.log <:+ (session.run events).log :=
  (h.induction (motive := fun after => after.Sound ∧ session.log <:+ after.log)
    ⟨hsound, List.suffix_rfl⟩ fun hafter hroom hpermits =>
      ⟨(hafter.1.step hroom hpermits).1, hafter.2.trans (hafter.1.log_step hpermits)⟩).2

end Session

namespace Likeness

variable {pool pool' : Pool} {session session' : Session} {events : List Event}

theorem shown_resizing {entry entry' : Entry} (h : resizing.Entries pool pool' entry entry') :
    entry'.shown? pool' = entry.shown? pool := by
  cases h with
  | read => rfl
  | @command command result => cases command <;> rfl
  | @call id call outcome outcome' houtcome =>
      obtain ⟨result, tuple⟩ := outcome
      obtain ⟨result', tuple'⟩ := outcome'
      obtain ⟨hresult, rfl⟩ := houtcome
      cases hresult with
      | page hobjects hdata => simp only [Entry.shown?, Except.map, Answer.shown, hdata]
      | same hplain =>
          have hshown : ∀ pool, result.map (Answer.shown pool) = result := by
            intro pool
            rcases result with failure | answer
            · rfl
            · cases answer with
              | page ref => exact absurd rfl (hplain ref)
              | _ => rfl
          simp only [Entry.shown?, hshown]

theorem entries_resizing {news news' : List Entry}
    (h : List.Forall₂ (resizing.Entries pool pool') news news') :
    news'.filterMap (Entry.shown? pool') = news.filterMap (Entry.shown? pool) := by
  induction h with
  | nil => rfl
  | cons hentry _ ih => rw [List.filterMap_cons, List.filterMap_cons, shown_resizing hentry, ih]

/-- Sessions over pools of different capacities show the same, as long as they find victims. -/
theorem sights_resizing (h : resizing.Sessions session session') (hsound : session.Sound)
    (hsound' : session'.Sound) (hfollows : session.Follows events)
    (hfollows' : session'.Follows events)
    (hvictims : (session.run events).isExhausted = false)
    (hvictims' : (session'.run events).isExhausted = false) :
    session'.sights events = session.sights events := by
  induction events generalizing session session' with
  | nil => rfl
  | cons event rest ih =>
      obtain ⟨hroom, hpermits, hrest⟩ := hfollows
      obtain ⟨hroom', hpermits', hrest'⟩ := hfollows'
      have hafter := (hsound.step hroom hpermits).1
      have hafter' := (hsound'.step hroom' hpermits').1
      obtain ⟨news, news', hlog, hlog', halike⟩ :=
        h.step lawful_resizing hsound hsound' hroom hpermits hpermits'
      -- a failure that would excuse a difference would still be in one of the logs at the end
      have hlast := (hrest.log_run hafter).subset
      have hlast' := (hrest'.log_run hafter').subset
      obtain ⟨hsessions, hentries⟩ := halike.resolve_right fun ⟨entry, hmem, failure, hresult,
          hexcused⟩ => by
        have hexhausted : entry.isExhausted := by
          rw [Entry.isExhausted, hresult]
          exact hexcused
        rcases List.mem_append.1 hmem with hnew | hnew
        · have hlogged := hlast (hlog ▸ List.mem_append_left _ hnew)
          exact List.any_eq_false.1 hvictims entry hlogged hexhausted
        · have hlogged := hlast' (hlog' ▸ List.mem_append_left _ hnew)
          exact List.any_eq_false.1 hvictims' entry hlogged hexhausted
      have hsight : session'.sight (session'.step event) = session.sight (session.step event) := by
        have hnews : ∀ news log : List Entry,
            (news ++ log).take ((news ++ log).length - log.length) = news := by simp
        simp only [Session.sight, hlog, hlog', hnews, entries_resizing hentries,
          hsessions.pools.locks_eq, funext hsessions.pools.content_eq,
          funext hsessions.pools.also.stored?_eq]
      rw [Session.sights, Session.sights, hsight,
        ih hsessions hafter hafter' hrest hrest' hvictims hvictims']

end Likeness

namespace Pool

/-- The pool with a cache for another number of pages. -/
def resized (pool : Pool) (capacity : Nat) : Pool :=
  { pool with cache := { pool.cache with capacity } }

theorem Ready.resized {pool : Pool} (h : pool.Ready) (capacity : Nat) :
    (pool.resized capacity).Ready :=
  ⟨h.empty, h.unlocked, h.backed, h.reliable, h.apart, h.strict⟩

end Pool

namespace Session

/-- **The cache is transparent.** Two pools that differ in capacity go through the same run, in which
storage answers at once and both find a victim whenever they need one. At every event they show the
same: the results of calls and commands with the bytes of the pages that are handed out, the locks,
and the bytes in storage. A heap table has fewer than 2 ^ 32 pages whenever an insertion into it goes
on; else the one that has a page in the cache does not see how storage loses it. -/
theorem capacity_invisible {pool : Pool} {now capacity capacity' : Nat} {events : List Event}
    (hready : pool.Ready) (hopen : ∀ volume ∈ pool.volumes, volume.gateClosed = false)
    (h : (ofPool (pool.resized capacity) now).Follows events)
    (h' : (ofPool (pool.resized capacity') now).Follows events)
    (hvictims : ((ofPool (pool.resized capacity) now).run events).isExhausted = false)
    (hvictims' : ((ofPool (pool.resized capacity') now).run events).isExhausted = false) :
    (ofPool (pool.resized capacity') now).sights events =
      (ofPool (pool.resized capacity) now).sights events := by
  have hsound := Sound.ofPool (hready.resized capacity) now
  have hsound' := Sound.ofPool (hready.resized capacity') now
  have habsent : ∀ capacity id, ((pool.resized capacity).standing id).cached = none :=
    fun capacity id => standing_cached_none (by simp [Cache.peek?, resized, hready.empty])
  have hgate : ∀ ref, ((pool.resized capacity).outline ref).gateClosed = false := by
    intro ref
    change (pool.volumes.getD ref default).gateClosed = false
    rw [List.getD_eq_getElem?_getD]
    cases hvolume : pool.volumes[ref]? with
    | none => rfl
    | some volume => exact hopen volume (List.mem_of_getElem? hvolume)
  have hagrees : (pool.resized capacity).Agrees (pool.resized capacity') :=
    ⟨fun _ => rfl, fun id => by
      rw [draft?_of_absent (habsent capacity id), draft?_of_absent (habsent capacity' id)], hgate⟩
  exact Likeness.sights_resizing ⟨⟨hsound.coherent, hsound'.coherent, rfl, hagrees⟩, rfl, .nil, .nil⟩
    hsound hsound' h h' hvictims hvictims'

/-- A page is written and flushed, another one is read, and then the first one is read again. -/
def revisiting : List Event :=
  [.start 0 (.get 1 ⟨0, 0⟩ .exclusive), .evaluate 0, .command (.write 0 1 0 [9]),
    .command (.flushPage ⟨0, 0⟩), .command (.finish .commit 1), .start 1 (.get 2 ⟨0, 1⟩ .shared),
    .evaluate 1, .start 2 (.get 2 ⟨0, 0⟩ .shared), .evaluate 2]

/-- The page comes from storage if there is room for one page only, and from the cache if there is
room for two. -/
theorem capacity_invisible_revisiting :
    let small := (ofPool (Pool.onePlace.resized 1) 0).run revisiting
    let large := (ofPool (Pool.onePlace.resized 2) 0).run revisiting
    (ofPool (Pool.onePlace.resized 2) 0).sights revisiting =
        (ofPool (Pool.onePlace.resized 1) 0).sights revisiting ∧
      small.handle? 2 = some ⟨2, .shared, 2⟩ ∧ large.handle? 2 = some ⟨2, .shared, 0⟩ :=
  ⟨capacity_invisible Pool.onePlace_ready (by decide) (by decide_cbv) (by decide_cbv)
    (by decide_cbv) (by decide_cbv), by decide_cbv, by decide_cbv⟩

end Session

end PagePool
