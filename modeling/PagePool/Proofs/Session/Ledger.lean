import PagePool.Proofs.Session.Step

/-!
# The ledger of a run

What the transactions of a run have done to the pages, told from what the pages show before and
after each event: the bytes that were committed last, the pages that a running transaction has
changed and the bytes they had before, and the pages that it has appended. The pool keeps no such
ledger, but all that an abort or a commit needs of it is in the pages.
-/

namespace PagePool

open LockRecord Standing Pool

/-- The bytes of a page before a transaction changed them for the first time, and now. -/
structure Change where
  before : Bytes
  after : Bytes
  deriving DecidableEq

structure Ledger where
  committed : PageId → Bytes
  /-- What the running transactions have changed. -/
  changed : TxId → PageId → Option Change
  /-- The pages that the running transactions have appended. -/
  appended : TxId → PageId → Bool
  /-- Who has ever changed a page. -/
  touched : TxId → PageId → Bool

namespace Ledger

def start (pool : Pool) : Ledger where
  committed := pool.content
  changed _ _ := none
  appended _ _ := false
  touched _ _ := false

/-- A transaction has acted. -/
def act (ledger : Ledger) (tx : TxId) (before after : Pool) : Ledger where
  committed := ledger.committed
  changed actor id :=
    if actor = tx ∧ after.content id ≠ before.content id then
      some
        { before := ((ledger.changed tx id).map Change.before).getD (before.content id)
          after := after.content id }
    else ledger.changed actor id
  appended actor id := ledger.appended actor id ||
    (actor = tx && (before.stored? id).isNone && (after.stored? id).isSome)
  touched actor id := ledger.touched actor id ||
    decide (actor = tx ∧ after.content id ≠ before.content id)

/-- A transaction has ended. What it has changed is committed, or is as it was before. -/
def finish (ledger : Ledger) (ending : Ending) (tx : TxId) : Ledger where
  committed id :=
    match ending with
    | .commit => ((ledger.changed tx id).map Change.after).getD (ledger.committed id)
    | .abort => ledger.committed id
  changed := Function.update ledger.changed tx fun _ => none
  appended := Function.update ledger.appended tx fun _ => false
  touched := ledger.touched

def record (ledger : Ledger) (session : Session) (event : Event) : Ledger :=
  match event with
  | .command (.finish ending tx) => ledger.finish ending tx
  | event =>
      match session.actor? event with
      | some tx => ledger.act tx session.pool (session.step event).pool
      | none => ledger

/-- What the ledger says about a page is what the pool holds of it. -/
structure Tells (ledger : Ledger) (size : Nat) (id : PageId) (standing : Standing) : Prop where
  base_eq : standing.base size = ledger.committed id
  written : ∀ {tx change}, ledger.changed tx id = some change → standing.WrittenBy tx ∧
    standing.base size = change.before ∧ standing.content size = change.after
  touched : ∀ {tx change}, ledger.changed tx id = some change → ledger.touched tx id = true
  settled : (∀ tx, ledger.changed tx id = none) →
    standing.content size = standing.base size ∧ standing.onDisk size = standing.base size
  blank : ∀ {tx}, ledger.appended tx id = true →
    (∀ other, other ≠ tx → ledger.touched other id = false) →
      standing.stored.isSome ∧ standing.base size = Bytes.zeros size

def Sound (ledger : Ledger) (pool : Pool) : Prop :=
  ∀ id, ledger.Tells pool.pageSize id (pool.standing id)

end Ledger

/-- The ledger after a list of events. -/
def Session.audit (session : Session) (ledger : Ledger) : List Event → Ledger
  | [] => ledger
  | event :: rest => (session.step event).audit (ledger.record session event) rest

namespace Standing

variable {size : Nat} {id : PageId} {standing : Standing} {tx other : TxId}

theorem Coherent.writer_eq (h : standing.Coherent id) (hwritten : standing.WrittenBy tx)
    (hother : standing.WrittenBy other) : other = tx :=
  h.compatible.heldBy_eq hwritten.1 hother.1.heldBy

theorem isSome_stored_settle {ending : Ending} (h : standing.stored.isSome) :
    (standing.settle size ending id).stored.isSome := by
  unfold settle
  split
  · exact h
  · rfl

theorem base_of_stored_none (h : standing.Coherent id) (hstored : standing.stored = none) :
    standing.base size = Bytes.zeros size := by
  rw [base_of_absent (h.cached_eq_none hstored), hstored]
  rfl

theorem Coherent.content_eq_base_of_unwritten (h : standing.Coherent id)
    (hfree : ∀ owner, ¬standing.WrittenBy owner) :
    standing.content size = standing.base size := by
  cases hcached : standing.cached with
  | none => rw [content_of_absent hcached, base_of_absent hcached]
  | some entry =>
      obtain ⟨ref, page⟩ := entry
      rw [content_of_cached hcached, base_of_cached hcached]
      obtain ⟨bytes, _, _, hfaithful⟩ := h.resident ref page hcached
      rcases hfaithful with hsettled | ⟨owner, image, howner, hunfinished⟩
      · rw [hsettled.image_eq]
        rfl
      · have himage : page.beforeImage.isSome := by
          rw [hunfinished.image_eq]
          rfl
        exact absurd ⟨howner, ref, page, hcached, himage⟩ (hfree owner)

/-- A page that nobody has changed without committing it is the same in the cache, in storage, and
for an abort. -/
theorem Coherent.content_eq_base (h : standing.Coherent id)
    (hfree : ∀ owner, ¬OwnedBy standing.records owner) :
    standing.content size = standing.base size :=
  h.content_eq_base_of_unwritten fun owner hwritten => hfree owner hwritten.1

theorem writtenBy_unlock_iff :
    (standing.unlock tx).WrittenBy other ↔ standing.WrittenBy other ∧ other ≠ tx := by
  constructor
  · rintro ⟨howner, hcached⟩
    obtain ⟨howner, hother⟩ := ownedBy_filter_ne.1 howner
    exact ⟨⟨howner, hcached⟩, hother⟩
  · rintro ⟨⟨howner, hcached⟩, hother⟩
    exact ⟨ownedBy_filter_ne.2 ⟨howner, hother⟩, hcached⟩

end Standing

namespace Ledger

variable {ledger : Ledger} {size : Nat} {id : PageId} {tx : TxId} {ending : Ending}
  {before after : Pool}

/-- What one transaction has changed no other has. -/
theorem Tells.changed_eq_none {standing : Standing} (h : ledger.Tells size id standing)
    {later : Standing} (hlater : later.Coherent id)
    (hkept : ∀ {other}, standing.WrittenBy other → later.WrittenBy other)
    (hwritten : later.WrittenBy tx) (hnone : ledger.changed tx id = none) (other : TxId) :
    ledger.changed other id = none := by
  by_contra hchanged
  obtain ⟨change, hchange⟩ := Option.ne_none_iff_exists'.1 hchanged
  obtain rfl := hlater.writer_eq hwritten (hkept (h.written hchange).1)
  exact hchanged hnone

theorem changed_act (tx other : TxId) (id : PageId) :
    (ledger.act tx before after).changed other id =
      if other = tx ∧ after.content id ≠ before.content id then
        some
          { before := ((ledger.changed tx id).map Change.before).getD (before.content id)
            after := after.content id }
      else ledger.changed other id := rfl

theorem appended_act_iff {other : TxId} :
    (ledger.act tx before after).appended other id = true ↔ ledger.appended other id = true ∨
      (other = tx ∧ before.stored? id = none ∧ (after.stored? id).isSome) := by
  simp [act, and_assoc]

theorem touched_of_act {other : TxId}
    (h : (ledger.act tx before after).touched other id = false) :
    ledger.touched other id = false :=
  (Bool.or_eq_false_iff.1 h).1

theorem changed_of_act (hnone : ∀ other, (ledger.act tx before after).changed other id = none) :
    after.content id = before.content id ∧ ∀ other, ledger.changed other id = none := by
  have hsame : after.content id = before.content id := by
    by_contra hne
    have htx := hnone tx
    rw [changed_act, if_pos ⟨rfl, hne⟩] at htx
    cases htx
  refine ⟨hsame, fun other => ?_⟩
  have hother := hnone other
  rwa [changed_act, if_neg fun hacts => hacts.2 hsame] at hother

/-- An act that leaves all pages as they are tells nothing. -/
theorem act_eq_self (hcontent : ∀ id, after.content id = before.content id)
    (hstored : ∀ id, after.stored? id = before.stored? id) :
    ledger.act tx before after = ledger := by
  obtain ⟨committed, changed, appended, touched⟩ := ledger
  have hnone : ∀ stored : Option Bytes, (stored.isNone && stored.isSome) = false := by
    intro stored
    cases stored <;> rfl
  simp [act, hcontent, hstored, Bool.and_assoc, hnone]

theorem Sound.act {deed : Deed} (h : ledger.Sound before) (hbefore : before.Coherent)
    (hevolves : Evolves deed tx before after) (hkept : deed ≠ .flush) :
    (ledger.act tx before after).Sound after := by
  intro id
  have hid := h id
  have hmoves := hevolves.moves id
  have hcoherent := hbefore.coherent id
  have hcoherent' := hmoves.coherent hcoherent
  have hcontent : after.content id = (after.standing id).content before.pageSize := by
    rw [Pool.content, hevolves.pageSize_eq]
  have hwrites : after.content id ≠ before.content id → (after.standing id).WrittenBy tx := by
    rw [hcontent]
    exact fun hne => ((hmoves.content_eq_or hcoherent).resolve_left hne).2
  rw [hevolves.pageSize_eq]
  have hbase := hmoves.base_eq hcoherent
  refine ⟨hbase.trans hid.base_eq, ?_, ?_, ?_, ?_⟩
  · intro actor change hchange
    rw [changed_act] at hchange
    split at hchange
    · next hacts =>
      obtain ⟨rfl, hne⟩ := hacts
      cases hchange
      refine ⟨hwrites hne, ?_, hcontent.symm⟩
      rw [hbase]
      cases hold : ledger.changed actor id with
      | some old => exact (hid.written hold).2.1
      | none =>
          have hnone := hid.changed_eq_none hcoherent' (hmoves.writtenBy hcoherent)
            (hwrites hne) hold
          exact (hid.settled hnone).1.symm
    · next hidle =>
      obtain ⟨hwritten, hbefore, hafter⟩ := hid.written hchange
      have hwritten' := hmoves.writtenBy hcoherent hwritten
      refine ⟨hwritten', hbase.trans hbefore, Eq.trans ?_ hafter⟩
      rw [← hcontent]
      by_contra hne
      exact hidle ⟨hcoherent'.writer_eq (hwrites hne) hwritten', hne⟩
  · intro actor change hchange
    rw [changed_act] at hchange
    apply Bool.or_eq_true_iff.2
    split at hchange
    · next hacts => exact .inr (decide_eq_true hacts)
    · exact .inl (hid.touched hchange)
  · intro hnone
    obtain ⟨hsame, hnone'⟩ := changed_of_act hnone
    obtain ⟨hsettled, hdisk⟩ := hid.settled hnone'
    rw [hbase, hmoves.onDisk_eq hcoherent hkept, ← hcontent, hsame]
    exact ⟨hsettled, hdisk⟩
  · intro actor happended huntouched
    rw [hbase]
    rcases appended_act_iff.1 happended with hold | ⟨_, hstored, hstored'⟩
    · obtain ⟨hstored, hblank⟩ := hid.blank hold fun other hother =>
        touched_of_act (huntouched other hother)
      exact ⟨hmoves.isSome_stored hstored, hblank⟩
    · exact ⟨hstored', base_of_stored_none hcoherent hstored⟩

theorem Sound.serve (h : ledger.Sound before) (hbefore : before.Coherent)
    (hevolves : ∀ tx, Evolves .flush tx before after) : ledger.Sound after := by
  intro id
  have hid := h id
  have hmoves := (hevolves 0).moves id
  have hcoherent := hbefore.coherent id
  rw [(hevolves 0).pageSize_eq]
  have hbase := hmoves.base_eq hcoherent
  have hcontent := hmoves.content_eq (by simp) hcoherent
  refine ⟨hbase.trans hid.base_eq, ?_, hid.touched, ?_, ?_⟩
  · intro actor change hchange
    obtain ⟨hwritten, hchange⟩ := hid.written hchange
    rw [hbase, hcontent]
    exact ⟨hmoves.writtenBy hcoherent hwritten, hchange⟩
  · intro hnone
    obtain ⟨hcontent', hdisk⟩ := hid.settled hnone
    rw [hbase, hcontent]
    refine ⟨hcontent', ?_⟩
    rcases hmoves.onDisk_eq_or hcoherent (by simp) with hsame | hflushed
    · exact hsame.trans hdisk
    · exact hflushed.trans hcontent'
  · intro actor happended huntouched
    rw [hbase]
    exact (hid.blank happended huntouched).imp_left hmoves.isSome_stored

theorem Sound.release (h : ledger.Sound before) {page : PageId}
    (hunmodified : before.Unmodified tx page) (hreleases : before.Releases tx page after) :
    ledger.Sound after := by
  intro id
  have hid := h id
  rw [hreleases.pageSize_eq, hreleases.standing_eq]
  split
  · next hpage =>
    subst hpage
    refine ⟨hid.base_eq, ?_, hid.touched, hid.settled, hid.blank⟩
    intro actor change hchange
    obtain ⟨⟨howner, ref, object, hcached, himage⟩, hbytes⟩ := hid.written hchange
    refine ⟨⟨ownedBy_filter_ne.2 ⟨howner, ?_⟩, ref, object, hcached, himage⟩, hbytes⟩
    rintro rfl
    exact hunmodified.not_writtenBy ⟨howner, ref, object, hcached, himage⟩
  · exact hid

theorem changed_finish_eq_some {other : TxId} {change : Change}
    (h : (ledger.finish ending tx).changed other id = some change) :
    other ≠ tx ∧ ledger.changed other id = some change := by
  by_cases hother : other = tx
  · subst hother
    simp [finish] at h
  · refine ⟨hother, ?_⟩
    simpa [finish, hother] using h

theorem committed_finish_of_unchanged (h : ledger.changed tx id = none) :
    (ledger.finish ending tx).committed id = ledger.committed id := by
  cases ending with
  | commit => simp [finish, h]
  | abort => rfl

theorem changed_of_finish {other : TxId} (hother : other ≠ tx)
    (h : (ledger.finish ending tx).changed other id = none) : ledger.changed other id = none := by
  simpa [finish, hother] using h

theorem appended_of_finish {other : TxId}
    (h : (ledger.finish ending tx).appended other id = true) :
    other ≠ tx ∧ ledger.appended other id = true := by
  by_cases hother : other = tx
  · subst hother
    simp [finish] at h
  · refine ⟨hother, ?_⟩
    simpa [finish, hother] using h

theorem Tells.changed_of_held {standing : Standing} (h : ledger.Tells size id standing)
    (hcoherent : standing.Coherent id) (hheld : HeldBy standing.records tx) {other : TxId}
    (hother : other ≠ tx) : ledger.changed other id = none := by
  by_contra hchanged
  obtain ⟨change, hchange⟩ := Option.ne_none_iff_exists'.1 hchanged
  exact hother (hcoherent.compatible.heldBy_eq (h.written hchange).1.1 hheld).symm

/-- A transaction leaves the bytes that it has committed, or those that were there before. -/
theorem Tells.outcome_eq {standing : Standing} (h : ledger.Tells size id standing)
    (hcoherent : standing.Coherent id) (hheld : HeldBy standing.records tx) :
    standing.outcome size ending = (ledger.finish ending tx).committed id := by
  cases ending with
  | abort => exact h.base_eq
  | commit =>
      change standing.content size =
        ((ledger.changed tx id).map Change.after).getD (ledger.committed id)
      cases hchanged : ledger.changed tx id with
      | some change => exact (h.written hchanged).2.2
      | none =>
          have hnone : ∀ other, ledger.changed other id = none := by
            intro other
            by_cases hother : other = tx
            · rw [hother, hchanged]
            · exact h.changed_of_held hcoherent hheld hother
          exact (h.settled hnone).1.trans h.base_eq

theorem Sound.finish (h : ledger.Sound before) (hbefore : before.Coherent)
    (hfinishes : before.Finishes ending tx after) : (ledger.finish ending tx).Sound after := by
  intro id
  have hid := h id
  have hcoherent := hbefore.coherent id
  rw [hfinishes.pageSize_eq]
  by_cases hheld : HeldBy (before.locks.table.records id) tx
  · have hstanding := hfinishes.held_eq id hheld
    rw [hstanding]
    have hothers : ∀ {other}, other ≠ tx → ledger.changed other id = none := fun hother =>
      hid.changed_of_held hcoherent hheld hother
    refine ⟨?_, ?_, fun hchange => ?_, fun _ => ⟨?_, ?_⟩, fun happended huntouched => ?_⟩
    · exact (base_settle ..).trans (hid.outcome_eq hcoherent hheld)
    · intro other change hchange
      obtain ⟨hother, hold⟩ := changed_finish_eq_some hchange
      rw [hothers hother] at hold
      cases hold
    · exact hid.touched (changed_finish_eq_some hchange).2
    · exact (content_settle ..).trans (base_settle ..).symm
    · exact (onDisk_settle ..).trans (base_settle ..).symm
    · obtain ⟨hother, hold⟩ := appended_of_finish happended
      obtain ⟨hstored, hblank⟩ := hid.blank hold huntouched
      refine ⟨isSome_stored_settle hstored, (base_settle ..).trans ?_⟩
      -- the transaction has not changed the page, so it leaves what was there
      have hnone : ledger.changed tx id = none := by
        by_contra hchanged
        obtain ⟨change, hchange⟩ := Option.ne_none_iff_exists'.1 hchanged
        have huntouched' : ledger.touched tx id = false := huntouched tx (Ne.symm hother)
        rw [hid.touched hchange] at huntouched'
        cases huntouched'
      rw [hid.outcome_eq hcoherent hheld, ← hblank, hid.base_eq]
      exact committed_finish_of_unchanged hnone
  · rw [hfinishes.others_eq id hheld]
    have hnone : ledger.changed tx id = none := by
      by_contra hchanged
      obtain ⟨change, hchange⟩ := Option.ne_none_iff_exists'.1 hchanged
      exact hheld (hid.written hchange).1.1.heldBy
    refine ⟨?_, fun hchange => ?_, fun hchange => ?_, fun hfinished => ?_,
      fun happended huntouched => ?_⟩
    · exact hid.base_eq.trans (committed_finish_of_unchanged hnone).symm
    · exact hid.written (changed_finish_eq_some hchange).2
    · exact hid.touched (changed_finish_eq_some hchange).2
    · refine hid.settled fun other => ?_
      by_cases hother : other = tx
      · rw [hother, hnone]
      · exact changed_of_finish hother (hfinished other)
    · exact hid.blank (appended_of_finish happended).2 huntouched

theorem record_of_actor {session : Session} {event : Event}
    (hevent : ∀ ending tx, event ≠ .command (.finish ending tx))
    (hactor : session.actor? event = some tx) :
    ledger.record session event = ledger.act tx session.pool (session.step event).pool := by
  unfold record
  split
  · next ending tx => exact absurd rfl (hevent ending tx)
  · rw [hactor]

theorem record_of_nobody {session : Session} {event : Event}
    (hactor : session.actor? event = none) : ledger.record session event = ledger := by
  unfold record
  split
  · next ending tx => cases hactor
  · rw [hactor]

/-- The ledger keeps up with every event. -/
theorem Sound.record {session : Session} {event : Event} (h : ledger.Sound session.pool)
    (hsession : session.Sound) (hroom : session.HasRoom event) (hpermits : session.Permits event) :
    (ledger.record session event).Sound (session.step event).pool := by
  obtain ⟨_, heffect⟩ := hsession.step hroom hpermits
  have hcoherent := hsession.coherent
  cases heffect with
  | finish hevent _ hfinishes =>
      subst hevent
      exact h.finish hcoherent hfinishes
  | release hevent hreleases =>
      subst hevent
      rw [record_of_actor (by simp) rfl,
        act_eq_self (congrFun hreleases.content_eq) hreleases.stored?_eq]
      exact h.release hpermits.2 hreleases
  | act hevent hactor hkept hevolves =>
      rw [record_of_actor hevent hactor]
      exact h.act hcoherent hevolves hkept
  | serve hactor hevolves =>
      rw [record_of_nobody hactor]
      exact h.serve hcoherent hevolves

theorem Sound.start {pool : Pool} (hempty : ∀ id, pool.cache.peek? id = none) :
    (Ledger.start pool).Sound pool := by
  intro id
  have hcached := standing_cached_none (hempty id)
  have hsame : (pool.standing id).content pool.pageSize =
      (pool.standing id).base pool.pageSize := by
    rw [content_of_absent hcached, base_of_absent hcached]
  refine ⟨hsame.symm, fun h => ?_, fun h => ?_, fun _ => ⟨hsame, ?_⟩, fun h => ?_⟩
  · cases h
  · cases h
  · exact (base_of_absent hcached).symm
  · cases h

end Ledger

namespace Session

theorem Follows.ledger {session : Session} {ledger : Ledger} {events : List Event}
    (h : session.Follows events) (hsession : session.Sound) (hledger : ledger.Sound session.pool) :
    (session.audit ledger events).Sound (session.run events).pool := by
  induction events generalizing session ledger with
  | nil => exact hledger
  | cons event rest ih =>
      obtain ⟨hroom, hpermits, hrest⟩ := h
      exact ih hrest (hsession.step hroom hpermits).1 (hledger.record hsession hroom hpermits)

end Session

end PagePool
