import PagePool.Proofs.Lock.Departure
import PagePool.Proofs.Pool.Completion
import PagePool.Proofs.Session.Halt
import PagePool.Proofs.Session.Tenure

/-!
# Ends of transactions commute

Two transactions that end one after the other leave the same pool in either order: the same page
objects, the same bytes in storage, the same cache and the same locks. An end changes only pages
that the transaction owns, where the other one has no lock, and otherwise takes locks away. This
rests on what every run that keeps to the rules leaves to writers, and not on storage having the
bytes of clean pages.
-/

namespace PagePool

open LockRecord Standing Pool

theorem Standing.unlock_unlock (standing : Standing) (tx other : TxId) :
    (standing.unlock tx).unlock other = (standing.unlock other).unlock tx := by
  simp only [unlock, List.filter_filter, Bool.and_comm]

theorem Frames.ext_frame {frames other : Frames} (hnext : frames.next = other.next)
    (hframe : ∀ ref, frames.frame ref = other.frame ref) : frames = other := by
  obtain ⟨cells⟩ := frames
  obtain ⟨cells'⟩ := other
  congr 1
  refine List.ext_getElem hnext fun ref hin hin' => ?_
  simpa [Frames.frame, hin, hin'] using hframe ref

namespace Pool

/-- The pool once the tasks that it has notified are woken. -/
def hushed (pool : Pool) : Pool :=
  { pool with locks := { pool.locks with notified := [] } }

theorem retains_hushed (pool : Pool) : pool.Retains pool.hushed :=
  ⟨rfl, rfl, rfl, rfl, fun _ => rfl, fun _ => rfl⟩

section Tidy

variable {pool after : Pool} {ending : Ending} {tx other : TxId} {id : PageId}

theorem Tidy.sound (h : pool.Tidy .strict) (hapart : (pool.tables.map Table.volume).Nodup) :
    pool.Sound where
  nodup := h.nodup
  inside := h.inside
  named := h.named
  backed htable := h.backed rfl _ (List.mem_of_find?_eq_some htable)
  reliable := h.reliable_of_eq
  apart htable hother hsame := by
    have heq := List.inj_on_of_nodup_map hapart (List.mem_of_find?_eq_some htable)
      (List.mem_of_find?_eq_some hother) hsame
    rw [← table?_id htable, ← table?_id hother, heq]

/-- What is unfinished on a page is its owner's, and whoever has locked the page is that owner. -/
theorem Tidy.closable (h : pool.Tidy .strict)
    (hheld : HeldBy (pool.locks.table.records id) tx) :
    (pool.standing id).Closable tx pool.pageSize := by
  intro ref page hcached
  obtain ⟨hpeek, rfl⟩ := standing_cached_iff.1 hcached
  have hkept := h.kept hpeek
  refine ⟨h.stored rfl hpeek, hkept.length_data rfl, hkept.length_image rfl,
    hkept.image_of_dirty nofun, hkept.image_of_stolen rfl, fun owner hdirty => ?_⟩
  exact ((h.compatible id).heldBy_eq (hkept.owned_of_dirty rfl owner hdirty) hheld).symm

theorem Closes.records_eq (h : pool.Closes ending tx after) (id : PageId) :
    after.locks.table.records id = (pool.locks.table.records id).filter (·.tx ≠ tx) := by
  rw [h.locks_eq]
  exact LockTable.records_complete pool.locks.table tx id

/-- A page that the transaction does not own is clean, or it has no lock on it. -/
theorem Closes.standing_of_unowned (h : pool.Closes ending tx after) (htidy : pool.Tidy .strict)
    (hunowned : ¬OwnedBy (pool.locks.table.records id) tx) :
    after.standing id = (pool.standing id).unlock tx := by
  by_cases hheld : HeldBy (pool.locks.table.records id) tx
  · rw [h.held_eq id hheld]
    congr 1
    cases hpeek : pool.cache.peek? id with
    | none => exact conclude_of_absent (standing_cached_none hpeek)
    | some ref =>
        have hfree : ∀ owner, ¬OwnedBy (pool.locks.table.records id) owner := fun owner howner =>
          hunowned ((htidy.compatible id).heldBy_eq howner hheld ▸ howner)
        obtain ⟨himage, hdirty, hstolen⟩ := (htidy.kept hpeek).clean hfree
        exact conclude_eq_self (standing_cached hpeek) (htidy.named hpeek)
          ⟨rfl, hdirty, himage, hstolen⟩
  · rw [h.others_eq id hheld]
    exact (unlock_eq_self hheld).symm

end Tidy

/-- Two transactions end one after the other. -/
structure CloseBoth (ending ending' : Ending) (tx other : TxId) (before middle after : Pool) :
    Prop where
  tidy : before.Tidy .strict
  tidy_middle : middle.hushed.Tidy .strict
  first : before.Closes ending tx middle
  second : middle.hushed.Closes ending' other after

namespace CloseBoth

variable {before middle middle' after after' : Pool} {ending ending' : Ending} {tx other : TxId}
  {id : PageId}

theorem retains (h : before.CloseBoth ending ending' tx other middle after) :
    before.Retains after :=
  (h.first.retains.trans middle.retains_hushed).trans h.second.retains

section Standings

variable (h : before.CloseBoth ending ending' tx other middle after) (hne : tx ≠ other)
include h hne

/-- On a page that the first one owns the second one has no lock. -/
theorem standing_of_first (howner : OwnedBy (before.locks.table.records id) tx) :
    after.standing id = ((before.standing id).conclude before.pageSize ending id).unlock tx := by
  have hfree : ¬HeldBy (middle.locks.table.records id) other := by
    rw [h.first.records_eq, heldBy_filter_ne]
    rintro ⟨hheld, _⟩
    exact hne ((h.tidy.compatible id).heldBy_eq howner hheld).symm
  calc
    after.standing id = middle.standing id := h.second.others_eq id hfree
    _ = _ := h.first.held_eq id howner.heldBy

theorem standing_of_second (howner : OwnedBy (before.locks.table.records id) other) :
    after.standing id =
      ((before.standing id).conclude before.pageSize ending' id).unlock other := by
  have hfree : ¬HeldBy (before.locks.table.records id) tx := fun hheld =>
    hne ((h.tidy.compatible id).heldBy_eq howner hheld)
  have hmiddle : middle.standing id = before.standing id := h.first.others_eq id hfree
  have howner' : OwnedBy (middle.locks.table.records id) other := by
    rw [h.first.records_eq, ownedBy_filter_ne]
    exact ⟨howner, hne.symm⟩
  calc
    after.standing id =
        ((middle.standing id).conclude middle.pageSize ending' id).unlock other :=
      h.second.held_eq id howner'.heldBy
    _ = _ := by rw [hmiddle, h.first.retains.pageSize_eq]

omit hne in
theorem standing_of_unowned (hfirst : ¬OwnedBy (before.locks.table.records id) tx)
    (hsecond : ¬OwnedBy (before.locks.table.records id) other) :
    after.standing id = ((before.standing id).unlock tx).unlock other := by
  have hunowned : ¬OwnedBy (middle.locks.table.records id) other := by
    rw [h.first.records_eq, ownedBy_filter_ne]
    exact fun howner => hsecond howner.1
  calc
    after.standing id = (middle.standing id).unlock other :=
      h.second.standing_of_unowned h.tidy_middle hunowned
    _ = _ := by rw [h.first.standing_of_unowned h.tidy hfirst]

end Standings

theorem page_of_lost (h : before.CloseBoth ending ending' tx other middle after) {ref : PageRef}
    (hlost : ∀ id, before.cache.peek? id ≠ some ref) : after.page ref = before.page ref := by
  have hlost' : ∀ id, middle.cache.peek? id ≠ some ref := by
    rw [h.first.retains.cache_eq]
    exact hlost
  calc
    after.page ref = middle.page ref := h.second.page_eq ref fun id _ => hlost' id
    _ = before.page ref := h.first.page_eq ref fun id _ => hlost id

section Orders

variable (h : before.CloseBoth ending ending' tx other middle after)
  (h' : before.CloseBoth ending' ending other tx middle' after') (hne : tx ≠ other)
include h h' hne

theorem standing_comm (id : PageId) : after.standing id = after'.standing id := by
  by_cases hfirst : OwnedBy (before.locks.table.records id) tx
  · rw [h.standing_of_first hne hfirst, h'.standing_of_second hne.symm hfirst]
  by_cases hsecond : OwnedBy (before.locks.table.records id) other
  · rw [h.standing_of_second hne hsecond, h'.standing_of_first hne.symm hsecond]
  · rw [h.standing_of_unowned hfirst hsecond, h'.standing_of_unowned hsecond hfirst,
      unlock_unlock]

theorem page_comm (ref : PageRef) : after.page ref = after'.page ref := by
  by_cases hcached : ∃ id, before.cache.peek? id = some ref
  · obtain ⟨id, hpeek⟩ := hcached
    have hafter : (after.standing id).cached = some (ref, after.page ref) :=
      standing_cached (h.retains.cache_eq ▸ hpeek)
    have hafter' : (after'.standing id).cached = some (ref, after'.page ref) :=
      standing_cached (h'.retains.cache_eq ▸ hpeek)
    rw [h.standing_comm h' hne, hafter'] at hafter
    exact (Prod.mk.inj (Option.some.inj hafter)).2.symm
  · have hlost : ∀ id, before.cache.peek? id ≠ some ref := not_exists.1 hcached
    rw [h.page_of_lost hlost, h'.page_of_lost hlost]

theorem frames_comm : after.frames = after'.frames := by
  refine Frames.ext_frame (h.retains.next_eq.trans h'.retains.next_eq.symm) fun ref => ?_
  have hlatch : (after.frames.frame ref).latch = (after'.frames.frame ref).latch :=
    (h.retains.latch_eq ref).trans (h'.retains.latch_eq ref).symm
  have hpage : (after.frames.frame ref).page = (after'.frames.frame ref).page :=
    h.page_comm h' hne ref
  cases hframe : after.frames.frame ref
  cases hframe' : after'.frames.frame ref
  simp_all

omit hne in
theorem locks_comm : after.hushed.locks = after'.hushed.locks := by
  have hlocks : ∀ {before middle after : Pool} {ending ending' : Ending} {tx other : TxId},
      before.CloseBoth ending ending' tx other middle after → after.hushed.locks =
        { before.locks with
          table := (before.locks.table.complete tx).complete other
          graph := (before.locks.graph.removeTransaction tx).removeTransaction other
          notified := [] } := by
    intro before middle after ending ending' tx other h
    simp only [hushed, h.second.locks_eq, h.first.locks_eq]
    rfl
  rw [hlocks h, hlocks h', LockTable.complete_comm, WaitForGraph.removeTransaction_comm]

end Orders

end CloseBoth

end Pool

/-- Two transactions have written a page each, one of which has gone to storage, and a third one
waits for it. -/
def dueling : List Event :=
  [.start 0 (.get 1 ⟨0, 0⟩ .exclusive), .evaluate 0, .command (.write 0 1 0 [7]),
    .command .flushAll, .start 1 (.get 2 ⟨1, 0⟩ .exclusive), .evaluate 1,
    .command (.write 1 2 0 [8]), .start 2 (.get 3 ⟨0, 0⟩ .shared), .evaluate 2]

namespace Session

/-- Nothing tells the sessions apart but the order of their logs, and how often storage has been
called. -/
structure Coincides (session other : Session) : Prop where
  cache_eq : session.pool.cache = other.pool.cache
  frames_eq : session.pool.frames = other.pool.frames
  stored?_eq : ∀ id, session.pool.stored? id = other.pool.stored? id
  locks_eq : session.pool.locks = other.pool.locks
  tasks_eq : session.tasks = other.tasks
  handles_eq : session.handles = other.handles
  now_eq : session.now = other.now

variable {session : Session} {ending ending' : Ending} {tx other : TxId}

theorem Tidy.closes (h : session.Tidy .strict)
    (hapart : (session.pool.tables.map Table.volume).Nodup) (ending : Ending) (tx : TxId) :
    ∃ after, session.pool.Closes ending tx after ∧
      session.step (.command (.finish ending tx)) = { session with
        pool := after.hushed
        tasks := session.tasks.map (notifyTask after.locks)
        log := .command (.finish ending tx) (.ok .unit) :: session.log } := by
  have hclosable : ∀ id, HeldBy (session.pool.locks.table.records id) tx →
      (session.pool.standing id).Closable tx session.pool.pageSize := fun _ => h.tidy.closable
  obtain ⟨_, after, hrun, middle, hmiddle, rfl⟩ :=
    ((h.tidy.sound hapart).ends_finish ending hclosable).succeeds
  have hresult : session.action (.finish ending tx) session.pool =
      .ok .unit { middle with locks := (middle.locks.complete tx).2 } := by
    simp only [action, bind, EStateM.bind, hrun]
    rfl
  refine ⟨_, hmiddle.closes, ?_⟩
  rw [Session.step, react, execute_ok hresult]
  rfl

theorem Tidy.close_both (h : session.Tidy .strict)
    (hapart : (session.pool.tables.map Table.volume).Nodup) (htx : session.Idle tx)
    (ending ending' : Ending) (other : TxId) :
    ∃ middle after, session.pool.CloseBoth ending ending' tx other middle after ∧
      session.run [.command (.finish ending tx), .command (.finish ending' other)] = { session with
        pool := after.hushed
        tasks := session.tasks.map (notifyTask after.locks ∘ notifyTask middle.locks)
        log := .command (.finish ending' other) (.ok .unit) ::
          .command (.finish ending tx) (.ok .unit) :: session.log } := by
  obtain ⟨middle, hmiddle, hstep⟩ := h.closes hapart ending tx
  have hnext : (session.step (.command (.finish ending tx))).Tidy .strict := h.step htx
  have htables : middle.tables = session.pool.tables := hmiddle.retains.tables_eq
  obtain ⟨after, hafter, hstep'⟩ := hnext.closes (by rwa [hstep, hushed, htables]) ending' other
  rw [hstep] at hnext hafter hstep'
  refine ⟨middle, after, ⟨h.tidy, hnext.tidy, hmiddle, hafter⟩, ?_⟩
  rw [run, List.foldl_cons, List.foldl_cons, List.foldl_nil, hstep, hstep', List.map_map]

/-- The shards that are notified are those of the pages that either of the two has locked. -/
theorem notified_of_closeBoth {before middle after : Pool} (hne : tx ≠ other)
    (h : before.CloseBoth ending ending' tx other middle after) (shard : Nat) :
    (shard ∈ middle.locks.notified ∨ shard ∈ after.locks.notified) ↔
      shard ∈ before.locks.notified ∨ ∃ page, before.locks.shard page = shard ∧
        (page ∈ before.locks.table.related tx ∨ page ∈ before.locks.table.related other) := by
  have hfirst : middle.locks.notified = before.locks.notified ++
      (before.locks.table.related tx).map before.locks.shard := by
    rw [h.first.locks_eq]
    rfl
  have hsecond : after.locks.notified =
      ((before.locks.table.complete tx).related other).map before.locks.shard := by
    rw [h.second.locks_eq, Pool.hushed, h.first.locks_eq]
    rfl
  simp only [hfirst, hsecond, List.mem_append, List.mem_map, LockTable.mem_related_complete_iff]
  grind

/-- Whoever waits for a page that one of the two has locked is woken in either order. -/
theorem notifyTask_comm {before middle middle' after after' : Pool} (hne : tx ≠ other)
    (h : before.CloseBoth ending ending' tx other middle after)
    (h' : before.CloseBoth ending' ending other tx middle' after') (task : Task) :
    notifyTask after.locks (notifyTask middle.locks task) =
      notifyTask after'.locks (notifyTask middle'.locks task) := by
  have hshard : ∀ {before middle after : Pool} {ending ending' : Ending} {tx other : TxId},
      before.CloseBoth ending ending' tx other middle after →
      middle.locks.shard = before.locks.shard ∧ after.locks.shard = before.locks.shard := by
    intro before middle after ending ending' tx other h
    rw [h.second.locks_eq, Pool.hushed, h.first.locks_eq]
    exact ⟨rfl, rfl⟩
  obtain ⟨hmiddle, hafter⟩ := hshard h
  obtain ⟨hmiddle', hafter'⟩ := hshard h'
  have hsame : ∀ shard, (shard ∈ middle.locks.notified ∨ shard ∈ after.locks.notified) ↔
      (shard ∈ middle'.locks.notified ∨ shard ∈ after'.locks.notified) := fun shard => by
    rw [notified_of_closeBoth hne h, notified_of_closeBoth hne.symm h']
    simp only [or_comm]
  cases hwait : task.wait with
  | issued => simp only [notifyTask, hwait]
  | reading page => simp only [notifyTask, hwait]
  | blocked budget woken =>
      simp only [notifyTask, hwait, hmiddle, hafter, hmiddle', hafter', List.contains_eq_mem,
        Bool.or_assoc, ← Bool.decide_or, decide_eq_decide.2 (hsame _)]

/-- **Ends commute.** Two transactions without a call under way may end in either order, whichever
way each of them ends: the sessions coincide. This holds in every session that a run under the rules
comes to, however many pages there are, if each table has a volume of its own. -/
theorem finish_comm (h : session.Reachable .strict)
    (hapart : (session.pool.tables.map Table.volume).Nodup) (hne : tx ≠ other)
    (htx : session.Idle tx) (hother : session.Idle other) (ending ending' : Ending) :
    let first := Command.finish ending tx
    let second := Command.finish ending' other
    let straight := session.run [.command first, .command second]
    let swapped := session.run [.command second, .command first]
    straight.Coincides swapped ∧
      straight.log =
        .command second (.ok .unit) :: .command first (.ok .unit) :: session.log ∧
      swapped.log =
        .command first (.ok .unit) :: .command second (.ok .unit) :: session.log := by
  intro first second straight swapped
  obtain ⟨middle, after, hboth, hrun⟩ := h.tidy.close_both hapart htx ending ending' other
  obtain ⟨middle', after', hboth', hrun'⟩ := h.tidy.close_both hapart hother ending' ending tx
  have hstanding := hboth.standing_comm hboth' hne
  refine ⟨⟨?_, ?_, fun id => ?_, ?_, ?_, ?_, ?_⟩, ?_, ?_⟩
  all_goals simp only [straight, swapped, first, second, hrun, hrun']
  · exact hboth.retains.cache_eq.trans hboth'.retains.cache_eq.symm
  · have hframes := hboth.frames_comm hboth' hne
    exact hframes
  · exact congrArg Standing.stored (hstanding id)
  · exact hboth.locks_comm hboth'
  · exact List.map_congr_left fun task _ => notifyTask_comm hne hboth hboth' task

/-- One of the transactions is aborted and the other one commits. -/
theorem finish_comm_dueling :
    let session := (ofPool .twoTables 0).run dueling
    let straight := session.run [.command (.finish .abort 1), .command (.finish .commit 2)]
    let swapped := session.run [.command (.finish .commit 2), .command (.finish .abort 1)]
    straight.Coincides swapped ∧ swapped.pool.stored? ⟨0, 0⟩ = some [0, 0] ∧
      swapped.pool.stored? ⟨1, 0⟩ = some [8, 0] := by
  have hfollows : (ofPool .twoTables 0).Follows dueling := by decide_cbv
  obtain ⟨hsame, _, _⟩ := finish_comm (hfollows.reachable Pool.twoTables_ready .strict)
    (by decide_cbv) (by decide : 1 ≠ 2) (by decide_cbv) (by decide_cbv) .abort .commit
  exact ⟨hsame, by decide_cbv, by decide_cbv⟩

end Session

end PagePool
