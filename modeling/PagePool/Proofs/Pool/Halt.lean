import PagePool.Proofs.Pool.Outage

/-!
# Ends that fail half-way

A commit that fails at a write has committed the pages before it, and has not touched the others. An
abort that fails at a write has restored the pages before it; the page at which it stops has its
image back in the cache, while storage keeps the bytes of the transaction. Nothing on such a page
tells a later abort that there is work left, so it stays as it is.
-/

namespace PagePool

open LockRecord Standing Pool

namespace Standing

variable {standing : Standing} {ref : PageRef} {page : Page}

/-- A page with its image back in the cache and nowhere else. -/
def tear (standing : Standing) : Standing :=
  { standing with
    cached := standing.cached.map fun entry =>
      (entry.1, { entry.2 with
        data := entry.2.beforeImage.getD entry.2.data
        dirty := none
        beforeImage := none }) }

/-- The cached object has gone to storage with bytes that are not committed. -/
def Stolen (standing : Standing) : Prop :=
  ∃ ref page, standing.cached = some (ref, page) ∧ page.beforeImage.isSome = true ∧
    page.stolen = true

theorem tear_of_cached (h : standing.cached = some (ref, page)) :
    standing.tear = { standing with
      cached := some (ref, { page with
        data := page.beforeImage.getD page.data
        dirty := none
        beforeImage := none }) } := by
  simp only [tear, h, Option.map_some]

theorem settle_settle (size : Nat) (ending : Ending) (id : PageId) (standing : Standing) :
    (standing.settle size ending id).settle size ending id = standing.settle size ending id := by
  cases hcached : standing.cached with
  | none => rw [settle_of_absent hcached, settle_of_absent hcached]
  | some entry =>
      rw [settle_of_cached hcached, settle_of_cached rfl]
      cases ending <;> rfl

theorem cached_settle_map (size : Nat) (ending : Ending) (id : PageId) (standing : Standing) :
    (standing.settle size ending id).cached.map Prod.fst = standing.cached.map Prod.fst := by
  cases hcached : standing.cached with
  | none => rw [settle_of_absent hcached, hcached]
  | some entry => rw [settle_of_cached hcached, Option.map_some, Option.map_some]

end Standing

namespace Pool

section Settles

variable {before middle after : Pool} {ending : Ending} {id : PageId} {pages pages' : List PageId}

theorem peek?_eq_of_cached
    (h : (after.standing id).cached.map Prod.fst = (before.standing id).cached.map Prod.fst) :
    after.cache.peek? id = before.cache.peek? id := by
  simpa [standing, Option.map_map, Function.comp_def] using h

theorem Settles.peek?_eq (h : before.Settles ending pages after) (id : PageId) :
    after.cache.peek? id = before.cache.peek? id := by
  apply peek?_eq_of_cached
  rw [h.standing_eq]
  split
  · exact cached_settle_map ..
  · rfl

/-- It makes no difference whether a page is settled once or twice. -/
theorem Settles.append (h : before.Settles ending pages middle)
    (h' : middle.Settles ending pages' after) : before.Settles ending (pages ++ pages') after where
  sound := h'.sound
  pageSize_eq := h'.pageSize_eq.trans h.pageSize_eq
  tables_eq := h'.tables_eq.trans h.tables_eq
  locks_eq := h'.locks_eq.trans h.locks_eq
  next_eq := h'.next_eq.trans h.next_eq
  standing_eq id := by
    rw [h'.standing_eq, h.standing_eq, h.pageSize_eq]
    by_cases hid : id ∈ pages <;> by_cases hid' : id ∈ pages' <;>
      simp [hid, hid', settle_settle]
  page_eq ref hothers := by
    refine (h'.page_eq ref fun id hid => ?_).trans (h.page_eq ref fun id hid => ?_)
    · rw [h.peek?_eq]
      exact hothers id (List.mem_append_right _ hid)
    · exact hothers id (List.mem_append_left _ hid)

theorem Settles.congr (h : before.Settles ending pages after)
    (hsame : ∀ id, id ∈ pages ↔ id ∈ pages') : before.Settles ending pages' after where
  sound := h.sound
  pageSize_eq := h.pageSize_eq
  tables_eq := h.tables_eq
  locks_eq := h.locks_eq
  next_eq := h.next_eq
  standing_eq id := by
    rw [h.standing_eq]
    simp only [hsame]
  page_eq ref hothers := h.page_eq ref fun id hid => hothers id ((hsame id).1 hid)

end Settles

/-- Aborts of a transaction have restored some pages and torn others, and nothing else has
changed. -/
structure Retreats (before : Pool) (restored torn : List PageId) (after : Pool) : Prop where
  sound : after.Sound
  pageSize_eq : after.pageSize = before.pageSize
  tables_eq : after.tables = before.tables
  locks_eq : after.locks = before.locks
  next_eq : after.frames.next = before.frames.next
  stolen : ∀ id ∈ torn, (before.standing id).Stolen
  standing_eq : ∀ id, after.standing id =
    if id ∈ torn then (before.standing id).tear
    else if id ∈ restored then (before.standing id).settle before.pageSize .abort id
    else before.standing id
  page_eq : ∀ ref, (∀ id, id ∈ restored ∨ id ∈ torn → before.cache.peek? id ≠ some ref) →
    after.page ref = before.page ref

variable {before pool after : Pool} {restored torn pages : List PageId} {id : PageId}

theorem Retreats.refl (h : pool.Sound) : pool.Retreats [] [] pool where
  sound := h
  pageSize_eq := rfl
  tables_eq := rfl
  locks_eq := rfl
  next_eq := rfl
  stolen := by simp
  standing_eq _ := by simp
  page_eq _ _ := rfl

/-- Without torn pages all is as an abort that did not fail would have it. -/
theorem Retreats.settles (h : before.Retreats pages [] after) :
    before.Settles .abort pages after where
  sound := h.sound
  pageSize_eq := h.pageSize_eq
  tables_eq := h.tables_eq
  locks_eq := h.locks_eq
  next_eq := h.next_eq
  standing_eq id := by simpa using h.standing_eq id
  page_eq ref hothers := h.page_eq ref (by simpa using hothers)

theorem Retreats.peek?_eq (h : before.Retreats restored torn after) (id : PageId) :
    after.cache.peek? id = before.cache.peek? id := by
  apply peek?_eq_of_cached
  rw [h.standing_eq]
  split
  · simp [Standing.tear, Option.map_map, Function.comp_def]
  · split
    · exact cached_settle_map ..
    · rfl

/-- A page that is not torn can be taken back, whether it has been before or not. -/
theorem Retreats.restore (h : before.Retreats restored torn pool) (hid : id ∉ torn)
    (hsettles : pool.Settles .abort [id] after) :
    before.Retreats (id :: restored) torn after where
  sound := hsettles.sound
  pageSize_eq := hsettles.pageSize_eq.trans h.pageSize_eq
  tables_eq := hsettles.tables_eq.trans h.tables_eq
  locks_eq := hsettles.locks_eq.trans h.locks_eq
  next_eq := hsettles.next_eq.trans h.next_eq
  stolen := h.stolen
  standing_eq other := by
    rw [hsettles.standing_eq, h.pageSize_eq, h.standing_eq]
    by_cases hsame : other = id
    · subst hsame
      simp only [hid, List.mem_cons, true_or, if_true, if_false]
      split
      · exact settle_settle ..
      · rfl
    · simp only [List.mem_cons, List.not_mem_nil, hsame, false_or, if_false]
  page_eq ref hothers := by
    refine (hsettles.page_eq ref fun other hother => ?_).trans
      (h.page_eq ref fun other hother => ?_)
    · rw [h.peek?_eq]
      exact hothers other (.inl (List.mem_cons.2 (.inl (List.mem_singleton.1 hother))))
    · exact hothers other (hother.imp_left (List.mem_cons_of_mem id))

/-- A torn page gives an abort nothing to do. -/
theorem Retreats.pass (h : before.Retreats restored torn pool) (hid : id ∈ torn) :
    before.Retreats (id :: restored) torn pool where
  sound := h.sound
  pageSize_eq := h.pageSize_eq
  tables_eq := h.tables_eq
  locks_eq := h.locks_eq
  next_eq := h.next_eq
  stolen := h.stolen
  standing_eq other := by
    rw [h.standing_eq]
    by_cases hsame : other = id
    · rw [hsame, if_pos hid, if_pos hid]
    · simp only [List.mem_cons, hsame, false_or]
  page_eq ref hothers :=
    h.page_eq ref fun other hother => hothers other (hother.imp_left (List.mem_cons_of_mem id))

theorem Retreats.tear (h : before.Retreats restored torn pool) (htears : Tears id pool after) :
    before.Retreats restored (id :: torn) after := by
  obtain ⟨ref, object, hpeek, hrestored, hstolen, hsettles⟩ := htears
  have hcached := standing_cached hpeek
  obtain ⟨image, himage, hobject⟩ := Option.map_eq_some_iff.1 hrestored
  -- only a page that no abort has come to yet has an image
  have hsame : pool.standing id = before.standing id := by
    have hstanding := h.standing_eq id
    split at hstanding
    · rw [hstanding] at hcached
      obtain ⟨entry, _, hentry⟩ := Option.map_eq_some_iff.1 hcached
      rw [← (Prod.mk.inj hentry).2] at himage
      cases himage
    · split at hstanding
      · rw [hstanding] at hcached
        rw [imageless_settle hcached] at himage
        cases himage
      · exact hstanding
  have hid : object.id = id := by
    rw [← hobject]
    exact h.sound.named hpeek
  refine ⟨hsettles.sound, hsettles.pageSize_eq.trans h.pageSize_eq,
    hsettles.tables_eq.trans h.tables_eq, hsettles.locks_eq.trans h.locks_eq,
    (hsettles.next_eq.trans (next_setPage ..)).trans h.next_eq, fun other hother => ?_,
    fun other => ?_, fun other hothers => ?_⟩
  · rcases List.mem_cons.1 hother with rfl | hother
    · rw [← hsame]
      exact ⟨ref, _, hcached, by rw [himage]; rfl, hstolen⟩
    · exact h.stolen other hother
  · rw [hsettles.standing_eq, if_neg List.not_mem_nil, standing_setPage h.sound hpeek]
    by_cases hother : other = id
    · subst hother
      rw [if_pos rfl, if_pos List.mem_cons_self, ← hsame, tear_of_cached hcached, himage, ← hobject]
      rfl
    · simp only [hother, if_false, List.mem_cons, false_or]
      exact h.standing_eq other
  · rw [hsettles.page_eq other (by simp), page_setPage, if_neg]
    · exact h.page_eq other fun place hplace =>
        hothers place (hplace.imp_right (List.mem_cons_of_mem id))
    · rintro ⟨rfl, _⟩
      refine hothers id (.inr List.mem_cons_self) ?_
      rwa [← h.peek?_eq]

end Pool

section Loop

variable {before pool : Pool} {restored torn pages : List PageId} {tx : TxId} {id : PageId}

/-- A commit goes through its pages one by one and stops at the first that it cannot write. -/
theorem ends_commitPages (hpool : pool.mend.Coherent) (hnodup : pages.Nodup)
    (hheld : ∀ id ∈ pages, HeldBy (pool.mend.locks.table.records id) tx) :
    Ends (pages.forM (finishPage .commit tx)) pool
      (fun _ after => pool.mend.Settles .commit pages after.mend)
      (fun _ after => ∃ written rest, pages = written ++ rest ∧ rest ≠ [] ∧
        pool.mend.Settles .commit written after.mend) := by
  induction pages generalizing pool with
  | nil => exact settles_nil hpool.toSound
  | cons id rest ih =>
      rw [List.nodup_cons] at hnodup
      rw [List.forall_mem_cons] at hheld
      have hpage := (weathers_commitPage hpool.toSound id).ends
        (@ends_finishPage _ .commit tx id hpool.toSound (hpool.coherent id) hheld.1)
      refine hpage.bind (fun _ middle hsettles => ?_) fun _ after hsettles => ?_
      · have hlocks := hsettles.locks_eq
        have hheld' : ∀ other ∈ rest, HeldBy (middle.mend.locks.table.records other) tx := by
          rw [hlocks]
          exact hheld.2
        refine (ih (hsettles.coherent hpool) hnodup.2 hheld').mono
          (fun _ _ h => hsettles.cons h hnodup.1) fun _ after hfails => ?_
        obtain ⟨written, rest', rfl, hne, h⟩ := hfails
        refine ⟨id :: written, rest', rfl, hne, hsettles.cons h fun hmem => ?_⟩
        exact hnodup.1 (List.mem_append_left _ hmem)
      · exact ⟨[], id :: rest, rfl, List.cons_ne_nil _ _, hsettles⟩

/-- The pages that an abort has not come to yet and those it has restored can be taken back. -/
theorem Pool.Retreats.coherent_of_not_torn (h : before.Retreats restored torn pool)
    (hbefore : before.Coherent) (hid : id ∉ torn) : (pool.standing id).Coherent id := by
  rw [h.standing_eq, if_neg hid]
  split
  · exact (hbefore.coherent id).settle
  · exact hbefore.coherent id

theorem ends_rollbackPage_torn (h : before.Retreats restored torn pool) (hid : id ∈ torn) :
    Ends (rollbackPage tx id) pool (fun _ after => after = pool) (fun _ _ => False) := by
  obtain ⟨ref, object, hcached, _⟩ := h.stolen id hid
  have hstanding := congrArg Standing.cached (h.standing_eq id)
  rw [if_pos hid, tear_of_cached hcached] at hstanding
  obtain ⟨hpeek, hobject⟩ := standing_cached_iff.1 hstanding
  rw [ends_rollbackPage_iff, hpeek]
  simp [← hobject, Page.restored?]

/-- One page of an abort, which may have failed before. -/
theorem ends_rollbackPage_retreats (hbefore : before.Coherent)
    (h : before.Retreats restored torn pool.mend)
    (hheld : HeldBy (before.locks.table.records id) tx) :
    Ends (rollbackPage tx id) pool
      (fun _ after => before.Retreats (id :: restored) torn after.mend)
      (fun _ after => before.Retreats restored (id :: torn) after.mend) := by
  have hweathers : Weathers mend (rollbackPage tx id) pool _ := weathers_rollbackPage h.sound id
  by_cases hid : id ∈ torn
  · refine (hweathers.ends (ends_rollbackPage_torn h hid)).mono (fun _ after hsame => ?_)
      fun _ _ => h.tear
    rw [hsame]
    exact h.pass hid
  · have hheld' : HeldBy (pool.mend.locks.table.records id) tx := by
      rw [h.locks_eq]
      exact hheld
    have hended :=
      @ends_finishPage _ .abort tx id h.sound (h.coherent_of_not_torn hbefore hid) hheld'
    exact (hweathers.ends hended).mono (fun _ _ => h.restore hid) fun _ _ => h.tear

theorem ends_rollbackPages (hbefore : before.Coherent)
    (h : before.Retreats restored torn pool.mend)
    (hheld : ∀ id ∈ pages, HeldBy (before.locks.table.records id) tx) :
    Ends (pages.forM (finishPage .abort tx)) pool
      (fun _ after => before.Retreats (pages.reverse ++ restored) torn after.mend)
      (fun _ after => ∃ restored' id, id ∈ pages ∧
        before.Retreats restored' (id :: torn) after.mend) := by
  induction pages generalizing pool restored with
  | nil => exact h
  | cons id rest ih =>
      rw [List.forall_mem_cons] at hheld
      refine (ends_rollbackPage_retreats hbefore h hheld.1).bind (fun _ middle hmiddle => ?_)
        fun _ after hfails => ⟨restored, id, List.mem_cons_self, hfails⟩
      refine (ih hmiddle hheld.2).mono (fun _ after hafter => ?_) fun _ after hfails => ?_
      · rw [List.reverse_cons, List.append_assoc]
        exact hafter
      · obtain ⟨restored', stop, hstop, hafter⟩ := hfails
        exact ⟨restored', stop, List.mem_cons_of_mem id hstop, hafter⟩

end Loop

section Finish

variable {before pool : Pool} {restored torn : List PageId} {tx : TxId}

/-- A commit in an outage succeeds, or it stops before the end of the pages that it has to write;
then the transaction keeps its locks. -/
theorem ends_finish_commit (hpool : pool.mend.Coherent) :
    Ends (finish .commit tx) pool (fun _ after => pool.mend.Finishes .commit tx after.mend)
      (fun _ after => ∃ written rest, pool.locks.table.related tx = written ++ rest ∧ rest ≠ [] ∧
        pool.mend.Settles .commit written after.mend) := by
  unfold finish
  rw [ends_bind, ends_get]
  refine (ends_commitPages hpool LockTable.nodup_related fun _ => LockTable.mem_related_iff.1).bind
    (fun _ middle hsettles => ?_) fun _ _ hfails => hfails
  exact hsettles.finishes hpool

/-- An abort in an outage restores all that is not torn, or it stops at a page and tears it. -/
theorem ends_finish_abort (hbefore : before.Coherent)
    (h : before.Retreats restored torn pool.mend) :
    Ends (finish .abort tx) pool
      (fun _ after => ∃ middle, after.mend = { middle with
          locks := (middle.locks.complete tx).2 } ∧
        before.Retreats ((before.locks.table.related tx).reverse ++ restored) torn middle)
      (fun _ after => ∃ restored' id, HeldBy (before.locks.table.records id) tx ∧
        before.Retreats restored' (id :: torn) after.mend) := by
  have hlocks : pool.locks = before.locks := h.locks_eq
  unfold finish
  rw [ends_bind, ends_get, hlocks]
  refine (ends_rollbackPages hbefore h fun id hmem => LockTable.mem_related_iff.1 hmem).bind
    (fun _ middle hmiddle => ⟨middle.mend, rfl, hmiddle⟩) fun _ after hfails => ?_
  obtain ⟨restored', id, hmem, hafter⟩ := hfails
  exact ⟨restored', id, LockTable.mem_related_iff.1 hmem, hafter⟩

namespace Pool

/-- The transaction tries to end in some outage, and fails. -/
def Fails (ending : Ending) (tx : TxId) (before after : Pool) : Prop :=
  ∃ outage failure, finish ending tx (before.strike outage) = .error failure after

/-- The transaction ends, whatever outage there is. -/
def Succeeds (ending : Ending) (tx : TxId) (before after : Pool) : Prop :=
  ∃ outage, finish ending tx (before.strike outage) = .ok () after

/-- An attempt to end: whether it succeeds, and the pool that it leaves. -/
def tryFinish (pool : Pool) (ending : Ending) (tx : TxId) (outage : VolumeRef → Nat → Bool) :
    Bool × Pool :=
  match finish ending tx (pool.strike outage) with
  | .ok _ after => (true, after)
  | .error _ after => (false, after)

theorem fails_tryFinish {ending : Ending} {outage : VolumeRef → Nat → Bool}
    (h : (pool.tryFinish ending tx outage).1 = false) :
    pool.Fails ending tx (pool.tryFinish ending tx outage).2 := by
  unfold tryFinish at h ⊢
  cases hends : finish ending tx (pool.strike outage) with
  | ok _ after => simp [hends] at h
  | error failure after => exact ⟨outage, failure, hends⟩

theorem succeeds_tryFinish {ending : Ending} {outage : VolumeRef → Nat → Bool}
    (h : (pool.tryFinish ending tx outage).1 = true) :
    pool.Succeeds ending tx (pool.tryFinish ending tx outage).2 := by
  unfold tryFinish at h ⊢
  cases hends : finish ending tx (pool.strike outage) with
  | ok _ after => exact ⟨outage, hends⟩
  | error failure after => simp [hends] at h

variable {halted final : Pool}

/-- Commits of a transaction that fail again and again have committed some of its pages, and have
not touched the others. -/
theorem settles_of_fails (hpool : pool.mend.Coherent)
    (h : Relation.TransGen (Fails .commit tx) pool halted) :
    ∃ written rest, pool.locks.table.related tx = written ++ rest ∧ rest ≠ [] ∧
      pool.mend.Settles .commit written halted.mend := by
  have hfirst : ∀ {first second : Pool}, first.mend.Coherent → Fails .commit tx first second →
      ∃ written rest, first.locks.table.related tx = written ++ rest ∧ rest ≠ [] ∧
        first.mend.Settles .commit written second.mend := by
    rintro first second hcoherent ⟨outage, failure, hfails⟩
    have hstruck : (first.strike outage).mend.Coherent := by rwa [mend_strike]
    have hended := (ends_finish_commit hstruck).of_error hfails
    rwa [mend_strike] at hended
  induction h with
  | single hfails => exact hfirst hpool hfails
  | @tail middle last _ hfails ih =>
      obtain ⟨written, rest, hrelated, hne, hsettles⟩ := ih
      obtain ⟨written', rest', hrelated', hne', hsettles'⟩ :=
        hfirst (hsettles.coherent hpool) hfails
      have hlocks : middle.locks = pool.locks := hsettles.locks_eq
      have hboth := hsettles.append hsettles'
      rw [hlocks, hrelated] at hrelated'
      -- of two beginnings of one list, one is a beginning of the other
      rcases List.append_eq_append_iff.1 hrelated' with ⟨more, rfl, -⟩ | ⟨more, rfl, -⟩
      · exact ⟨_, rest', hrelated.trans hrelated', hne', hboth.congr (by grind)⟩
      · exact ⟨_, rest, hrelated, hne, hboth.congr (by grind)⟩

/-- Aborts of a transaction that fail again and again have torn a page at each failure. -/
theorem retreats_of_fails (hpool : pool.mend.Coherent)
    (h : Relation.TransGen (Fails .abort tx) pool halted) :
    ∃ restored torn, torn ≠ [] ∧ (∀ id ∈ torn, HeldBy (pool.locks.table.records id) tx) ∧
      pool.mend.Retreats restored torn halted.mend := by
  have hlast : ∀ {restored torn} {first second : Pool},
      (∀ id ∈ torn, HeldBy (pool.locks.table.records id) tx) →
      pool.mend.Retreats restored torn first.mend → Fails .abort tx first second →
        ∃ restored torn, torn ≠ [] ∧ (∀ id ∈ torn, HeldBy (pool.locks.table.records id) tx) ∧
          pool.mend.Retreats restored torn second.mend := by
    rintro restored torn first second hheld hretreats ⟨outage, failure, hfails⟩
    have hstruck : pool.mend.Retreats restored torn (first.strike outage).mend := by
      rwa [mend_strike]
    obtain ⟨restored', id, hid, hretreats'⟩ := (ends_finish_abort hpool hstruck).of_error hfails
    refine ⟨restored', id :: torn, List.cons_ne_nil _ _, ?_, hretreats'⟩
    exact List.forall_mem_cons.2 ⟨hid, hheld⟩
  induction h with
  | single hfails => exact hlast (by simp) (.refl hpool.toSound) hfails
  | tail _ hfails ih =>
      obtain ⟨restored, torn, _, hheld, hretreats⟩ := ih
      exact hlast hheld hretreats hfails

/-- An abort that succeeds in the end has restored all pages of the transaction but the torn ones,
which it leaves as they are. -/
theorem Retreats.standing_of_succeeds (hpool : pool.mend.Coherent)
    (h : pool.mend.Retreats restored torn halted.mend) (hends : Succeeds .abort tx halted final)
    (id : PageId) (hheld : HeldBy (pool.locks.table.records id) tx) :
    final.standing id = (if id ∈ torn then (pool.standing id).tear
      else (pool.standing id).settle pool.pageSize .abort id).unlock tx := by
  obtain ⟨outage, hends⟩ := hends
  have hstruck : pool.mend.Retreats restored torn (halted.strike outage).mend := by
    rwa [mend_strike]
  obtain ⟨middle, hmiddle, hretreats⟩ := (ends_finish_abort hpool hstruck).of_ok hends
  have hmem : id ∈ (pool.mend.locks.table.related tx).reverse ++ restored :=
    List.mem_append_left _ (List.mem_reverse.2 (LockTable.mem_related_iff.2 hheld))
  rw [← standing_mend, hmiddle, standing_complete, hretreats.standing_eq, if_pos hmem,
    standing_mend]
  rfl

theorem finishes_of_succeeds (hpool : halted.mend.Coherent)
    (hends : Succeeds .abort tx halted final) :
    halted.mend.Finishes .abort tx final.mend := by
  obtain ⟨outage, hends⟩ := hends
  have hstruck : halted.mend.Retreats [] [] (halted.strike outage).mend := by
    rw [mend_strike]
    exact .refl hpool.toSound
  obtain ⟨middle, hmiddle, hretreats⟩ := (ends_finish_abort hpool hstruck).of_ok hends
  rw [hmiddle]
  refine (hretreats.settles.congr fun id => ?_).finishes hpool
  simp

end Pool

end Finish

end PagePool
