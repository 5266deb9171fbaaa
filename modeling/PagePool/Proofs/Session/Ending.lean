import PagePool.Proofs.Session.Coherence

/-!
# How transactions end

An abort takes every page back to the bytes that it had before the transaction changed it, and a
commit leaves the bytes of the transaction in storage. Neither touches any other page, and neither
leaves a lock or an edge of the wait-for graph behind.
-/

namespace PagePool

open LockRecord Standing Pool

namespace Pool

/-- A page is as it was, in storage and in the cache. -/
structure SamePage (before after : Pool) (id : PageId) : Prop where
  stored_eq : after.stored? id = before.stored? id
  peek?_eq : after.cache.peek? id = before.cache.peek? id
  data_eq : ∀ ref, before.cache.peek? id = some ref →
    (after.page ref).data = (before.page ref).data

/-- No lock and no edge of the wait-for graph is the transaction's. -/
structure Traceless (pool : Pool) (tx : TxId) : Prop where
  records : ∀ id, ∀ record ∈ pool.locks.table.records id, record.tx ≠ tx
  targets_eq : pool.locks.graph.targets tx = []
  not_mem_targets : ∀ other, tx ∉ pool.locks.graph.targets other

variable {before after : Pool} {ledger : Ledger} {ending : Ending} {tx : TxId} {id : PageId}
  {ref : PageRef}

theorem SamePage.of_cached (hstored : after.stored? id = before.stored? id)
    (hcached : (after.standing id).cached.map (fun entry => (entry.1, entry.2.data)) =
      (before.standing id).cached.map fun entry => (entry.1, entry.2.data)) :
    before.SamePage after id := by
  have hentries : (after.cache.peek? id).map (fun ref => (ref, (after.page ref).data)) =
      (before.cache.peek? id).map fun ref => (ref, (before.page ref).data) := by
    simpa only [standing, Option.map_map, Function.comp_def] using hcached
  cases hpeek : before.cache.peek? id with
  | none =>
      rw [hpeek] at hentries
      have hpeek' := Option.map_eq_none_iff.1 hentries
      exact ⟨hstored, hpeek'.trans hpeek.symm, fun ref href => by rw [hpeek] at href; cases href⟩
  | some ref =>
      rw [hpeek] at hentries
      obtain ⟨ref', hpeek', heq⟩ := Option.map_eq_some_iff.1 hentries
      obtain ⟨rfl, hdata⟩ := Prod.mk.inj heq
      refine ⟨hstored, hpeek'.trans hpeek.symm, fun other hother => ?_⟩
      rw [hpeek] at hother
      cases hother
      exact hdata

theorem Finishes.isSome_stored (h : before.Finishes ending tx after)
    (hstored : (before.stored? id).isSome) : (after.stored? id).isSome := by
  change (after.standing id).stored.isSome
  change (before.standing id).stored.isSome at hstored
  by_cases hheld : LockRecord.HeldBy (before.locks.table.records id) tx
  · rw [h.held_eq id hheld]
    exact isSome_stored_settle hstored
  · rw [h.others_eq id hheld]
    exact hstored

theorem Finishes.settled_of_held (h : before.Finishes ending tx after)
    (hheld : LockRecord.HeldBy (before.locks.table.records id) tx)
    (hpeek : after.cache.peek? id = some ref) :
    ∃ bytes, after.stored? id = some bytes ∧ (after.page ref).Settled bytes := by
  have hstanding := h.held_eq id hheld
  have hcached' := congrArg Standing.cached hstanding
  rw [standing_cached hpeek] at hcached'
  cases hcached : (before.standing id).cached with
  | none =>
      rw [settle_of_absent hcached, unlock, hcached] at hcached'
      cases hcached'
  | some entry =>
      rw [settle_of_cached hcached] at hcached' hstanding
      obtain ⟨_, hpage⟩ := Prod.mk.inj (Option.some.inj hcached')
      refine ⟨_, congrArg Standing.stored hstanding, ?_⟩
      rw [hpage]
      exact .load id _

theorem Finishes.settled_of_cached (h : before.Finishes ending tx after)
    (hheld : LockRecord.HeldBy (before.locks.table.records id) tx) {page : Page}
    (hcached : (before.standing id).cached = some (ref, page)) :
    after.cache.peek? id = some ref ∧
      after.stored? id = some ((before.standing id).outcome before.pageSize ending) ∧
      (after.page ref).Settled ((before.standing id).outcome before.pageSize ending) := by
  have hstanding := h.held_eq id hheld
  rw [settle_of_cached hcached] at hstanding
  obtain ⟨hpeek, hpage⟩ := standing_cached_iff.1 (congrArg Standing.cached hstanding)
  refine ⟨hpeek, congrArg Standing.stored hstanding, ?_⟩
  rw [← hpage]
  exact .load id _

theorem Finishes.traceless (h : before.Finishes ending tx after) : after.Traceless tx where
  records id record hmem := by
    change record ∈ (after.standing id).records at hmem
    rw [h.records_eq] at hmem
    simpa using (List.mem_filter.1 hmem).2
  targets_eq := h.targets_eq
  not_mem_targets := h.not_mem_targets

end Pool

section Finish

variable {before after : Pool} {ledger : Ledger} {ending : Ending} {tx : TxId} {id : PageId}
  (hledger : ledger.Sound before) (hbefore : before.Coherent)
  (hfinishes : before.Finishes ending tx after)
include hledger hbefore hfinishes

/-- The end of a transaction changes nothing on a page that the transaction has not changed. -/
theorem Pool.Finishes.samePage (hnone : ledger.changed tx id = none) :
    before.SamePage after id := by
  have hid := hledger id
  have hcoherent := hbefore.coherent id
  by_cases hheld : LockRecord.HeldBy (before.locks.table.records id) tx
  · have hstanding := hfinishes.held_eq id hheld
    have hfree : ∀ other, ledger.changed other id = none := by
      intro other
      by_cases hother : other = tx
      · rw [hother, hnone]
      · exact hid.changed_of_held hcoherent hheld hother
    obtain ⟨hcontent, hdisk⟩ := hid.settled hfree
    have houtcome : (before.standing id).outcome before.pageSize ending =
        (before.standing id).base before.pageSize := by
      cases ending with
      | commit => exact hcontent
      | abort => rfl
    cases hcached : (before.standing id).cached with
    | none =>
        rw [settle_of_absent hcached] at hstanding
        apply SamePage.of_cached
        · exact congrArg Standing.stored hstanding
        · rw [hstanding]
          rfl
    | some entry =>
        obtain ⟨ref, page⟩ := entry
        obtain ⟨bytes, hbytes, _⟩ := hcoherent.resident ref page hcached
        rw [settle_of_cached hcached] at hstanding
        rw [houtcome, ← hcontent, content_of_cached hcached] at hstanding
        rw [onDisk, hbytes, ← hcontent, content_of_cached hcached] at hdisk
        apply SamePage.of_cached
        · change (after.standing id).stored = (before.standing id).stored
          rw [hstanding, hbytes]
          exact congrArg some hdisk.symm
        · rw [hstanding, hcached]
          rfl
  · have hstanding := hfinishes.others_eq id hheld
    apply SamePage.of_cached
    · exact congrArg Standing.stored hstanding
    · rw [hstanding]

omit hbefore in
theorem Pool.Finishes.settled_of_changed {change : Change}
    (hchange : ledger.changed tx id = some change) :
    ∃ ref bytes, after.cache.peek? id = some ref ∧ after.stored? id = some bytes ∧
      (after.page ref).Settled bytes ∧
      bytes = match ending with
        | .commit => change.after
        | .abort => change.before := by
  obtain ⟨⟨howner, ref, page, hcached, _⟩, hbase, hcontent⟩ := (hledger id).written hchange
  obtain ⟨hpeek, hstored, hsettled⟩ := hfinishes.settled_of_cached howner.heldBy hcached
  refine ⟨ref, _, hpeek, hstored, hsettled, ?_⟩
  cases ending with
  | commit => exact hcontent
  | abort => exact hbase

end Finish

namespace Session

/-- No event of a list changes a page. -/
def Keeps (session : Session) (id : PageId) : List Event → Prop
  | [] => True
  | event :: rest =>
      (session.step event).pool.content id = session.pool.content id ∧
        (session.step event).Keeps id rest

/-- Whoever gets a page next finds certain bytes there: whatever happens first, as long as it does
not change the page. -/
def Shows (session : Session) (id : PageId) (bytes : Bytes) : Prop :=
  ∀ {rest event number tx mode ref tuple}, session.Follows (rest ++ [event]) →
    session.Keeps id rest →
    (session.run (rest ++ [event])).log =
      .call number (.get tx id mode) ⟨.ok (.page ref), tuple⟩ :: (session.run rest).log →
    ((session.run (rest ++ [event])).pool.page ref).data = bytes

variable {pool : Pool} {session : Session} {events : List Event} {now : Nat} {tx : TxId}
  {ending : Ending} {id : PageId}

theorem Keeps.content_eq {rest : List Event} (h : session.Keeps id rest) :
    (session.run rest).pool.content id = session.pool.content id := by
  induction rest generalizing session with
  | nil => rfl
  | cons event rest ih =>
      calc ((session.step event).run rest).pool.content id
          = (session.step event).pool.content id := ih h.2
        _ = session.pool.content id := h.1

/-- A page that is got shows the bytes that are the page's. -/
theorem Sound.get_data (h : session.Sound) {event : Event} (hroom : session.HasRoom event)
    (hpermits : session.Permits event) {number : Nat} {mode : LockMode} {ref : PageRef}
    {tuple : Option Tuple}
    (hlog : (session.step event).log =
      .call number (.get tx id mode) ⟨.ok (.page ref), tuple⟩ :: session.log) :
    ((session.step event).pool.page ref).data = session.pool.content id := by
  obtain ⟨hcall, hpeek⟩ := h.lends hroom hpermits hlog
  have hevolves := (h.advances hroom hpermits hcall).evolves
  have hcontent := (hevolves.moves id).content_eq (by simp [Call.deed]) (h.coherent.coherent id)
  exact (content_of_cached (standing_cached hpeek)).symm.trans hcontent

theorem Sound.shows (h : session.Sound) {bytes : Bytes}
    (hcontent : session.pool.content id = bytes) : session.Shows id bytes := by
  intro rest event number tx mode ref tuple hfollows hkeeps hlog
  obtain ⟨hrest, hroom, hpermits, _⟩ := follows_append.1 hfollows
  rw [run_append] at hlog ⊢
  have hsound : (session.run rest).Sound :=
    hrest.induction h fun hsound hroom hpermits => (hsound.step hroom hpermits).1
  calc (((session.run rest).step event).pool.page ref).data
      = (session.run rest).pool.content id := hsound.get_data hroom hpermits hlog
    _ = session.pool.content id := hkeeps.content_eq
    _ = bytes := hcontent

theorem onDisk_eq_stored {standing : Standing} {size : Nat} (h : standing.stored.isSome) :
    standing.stored = some (standing.onDisk size) := by
  obtain ⟨bytes, hbytes⟩ := Option.isSome_iff_exists.1 h
  rw [onDisk, hbytes]
  rfl

section Run

variable (hready : pool.Ready)
  (h : (Session.ofPool pool now).Follows (events ++ [.command (.finish ending tx)]))
include hready h

theorem Follows.finishes :
    let before := (Session.ofPool pool now).run events
    let ledger := (Session.ofPool pool now).audit (.start pool) events
    let after := before.step (.command (.finish ending tx))
    before.Sound ∧ ledger.Sound before.pool ∧ after.Sound ∧
      after.log = .command (.finish ending tx) (.ok .unit) :: before.log ∧
      before.pool.Finishes ending tx after.pool := by
  intro before ledger after
  obtain ⟨hfollows, hroom, hpermits, _⟩ := follows_append.1 h
  have hbefore : before.Sound := hfollows.sound hready
  exact ⟨hbefore, hfollows.ledger_start hready, (hbefore.step hroom hpermits).1,
    hbefore.finishes hroom hpermits⟩

end Run

/-- **Abort.** An abort succeeds. Every page that the transaction has changed is back, in storage
and for whoever gets it next, at the bytes from before the first change; a page that the transaction
has appended is blank unless somebody else has written it; and no other page is touched. A heap table
has fewer than 2 ^ 32 pages whenever an insertion into it goes on. -/
theorem abort_restores (hready : pool.Ready)
    (h : (Session.ofPool pool now).Follows (events ++ [.command (.finish .abort tx)])) :
    let before := (Session.ofPool pool now).run events
    let ledger := (Session.ofPool pool now).audit (.start pool) events
    let after := before.step (.command (.finish .abort tx))
    after.log = .command (.finish .abort tx) (.ok .unit) :: before.log ∧
      (∀ id change, ledger.changed tx id = some change →
        after.pool.stored? id = some change.before ∧ after.Shows id change.before) ∧
      (∀ id, ledger.appended tx id = true →
        (∀ other, other ≠ tx → ledger.touched other id = false) →
          after.pool.stored? id = some (Bytes.zeros after.pool.pageSize) ∧
            after.Shows id (Bytes.zeros after.pool.pageSize)) ∧
      (∀ id, ledger.changed tx id = none → before.pool.SamePage after.pool id) ∧
      after.pool.Traceless tx := by
  intro before ledger after
  obtain ⟨hbefore, hledger, hafter, hlog, hfinishes⟩ := h.finishes hready
  have hledger' := hledger.finish hbefore.coherent hfinishes
  refine ⟨hlog, fun id change hchange => ?_, fun id happended huntouched => ?_,
    fun id hnone => hfinishes.samePage hledger hbefore.coherent hnone, hfinishes.traceless⟩
  · obtain ⟨ref, bytes, hpeek, hstored, hsettled, rfl⟩ :=
      hfinishes.settled_of_changed hledger hchange
    refine ⟨hstored, hafter.shows ?_⟩
    exact (content_of_cached (standing_cached hpeek)).trans hsettled.data_eq
  · obtain ⟨hstored, hblank⟩ := (hledger id).blank happended huntouched
    have hnone : ∀ other, (ledger.finish .abort tx).changed other id = none := by
      intro other
      by_contra hchanged
      obtain ⟨change, hchange⟩ := Option.ne_none_iff_exists'.1 hchanged
      obtain ⟨hother, hold⟩ := Ledger.changed_finish_eq_some hchange
      have htouched := (hledger id).touched hold
      rw [huntouched other hother] at htouched
      cases htouched
    obtain ⟨hcontent, hdisk⟩ := (hledger' id).settled hnone
    have hbase : (after.pool.standing id).base after.pool.pageSize =
        Bytes.zeros after.pool.pageSize := by
      calc (after.pool.standing id).base after.pool.pageSize
          = ledger.committed id := (hledger' id).base_eq
        _ = (before.pool.standing id).base before.pool.pageSize := (hledger id).base_eq.symm
        _ = Bytes.zeros after.pool.pageSize := by rw [hblank, hfinishes.pageSize_eq]
    refine ⟨?_, hafter.shows (hcontent.trans hbase)⟩
    rw [← hbase, ← hdisk]
    have hstored' : (after.pool.standing id).stored.isSome := hfinishes.isSome_stored hstored
    exact onDisk_eq_stored hstored'

theorem abort_restores_stolen :
    let before := (Session.ofPool .onePlace 0).run stealing
    let after := before.step (.command (.finish .abort 1))
    after.pool.stored? ⟨0, 0⟩ = some [1, 2] ∧ after.Shows ⟨0, 0⟩ [1, 2] :=
  (abort_restores Pool.onePlace_ready
    (by decide_cbv : (ofPool .onePlace 0).Follows (stealing ++ [.command (.finish .abort 1)]))).2.1
      ⟨0, 0⟩ ⟨[1, 2], [9, 8]⟩ (by decide_cbv)

/-- **Commit.** A commit succeeds. Storage has the last bytes of every page that the transaction has
changed, and what the cache keeps of the pages it had locked is clean. Storage of all other pages is
as it was, whoever is writing them. A heap table has fewer than 2 ^ 32 pages whenever an insertion
into it goes on. -/
theorem commit_completes (hready : pool.Ready)
    (h : (Session.ofPool pool now).Follows (events ++ [.command (.finish .commit tx)])) :
    let before := (Session.ofPool pool now).run events
    let ledger := (Session.ofPool pool now).audit (.start pool) events
    let after := before.step (.command (.finish .commit tx))
    after.log = .command (.finish .commit tx) (.ok .unit) :: before.log ∧
      (∀ id change, ledger.changed tx id = some change →
        after.pool.stored? id = some change.after ∧
          ∀ ref, after.pool.cache.peek? id = some ref →
            (after.pool.page ref).Settled change.after) ∧
      (∀ id, before.pool.locks.table.holds tx id = true →
        ∀ ref, after.pool.cache.peek? id = some ref →
          ∃ bytes, after.pool.stored? id = some bytes ∧ (after.pool.page ref).Settled bytes) ∧
      (∀ id, ledger.changed tx id = none → after.pool.stored? id = before.pool.stored? id) ∧
      after.pool.Traceless tx := by
  intro before ledger after
  obtain ⟨hbefore, hledger, hafter, hlog, hfinishes⟩ := h.finishes hready
  refine ⟨hlog, fun id change hchange => ?_, fun id hheld ref hpeek => ?_, fun id hnone => ?_,
    hfinishes.traceless⟩
  · obtain ⟨ref, bytes, hpeek, hstored, hsettled, rfl⟩ :=
      hfinishes.settled_of_changed hledger hchange
    refine ⟨hstored, fun other hother => ?_⟩
    rwa [← Option.some.inj (hpeek.symm.trans hother)]
  · exact hfinishes.settled_of_held (LockTable.holds_iff.1 hheld) hpeek
  · exact (hfinishes.samePage hledger hbefore.coherent hnone).stored_eq

theorem commit_completes_stolen :
    let before := (Session.ofPool .onePlace 0).run stealing
    let after := before.step (.command (.finish .commit 1))
    after.pool.stored? ⟨0, 0⟩ = some [9, 8] :=
  ((commit_completes Pool.onePlace_ready
    (by decide_cbv : (ofPool .onePlace 0).Follows (stealing ++ [.command (.finish .commit 1)]))).2.1
      ⟨0, 0⟩ ⟨[1, 2], [9, 8]⟩ (by decide_cbv)).1

end Session

end PagePool
