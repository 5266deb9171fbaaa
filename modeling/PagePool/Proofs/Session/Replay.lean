import PagePool.Proofs.Session.History
import PagePool.Proofs.Session.Ledger

/-!
# Replaying journals

The journal of a running transaction can be replayed on every store that has the bytes that the
others have left on the pages it has locked. What the others do in the meantime keeps it so, and
when the transaction commits, its journal can be replayed on what was committed before.
-/

namespace PagePool

open LockRecord Standing Pool

/-- Wherever a store has the bytes from before the transaction on all pages that it has locked, the
queries show what the transaction was shown, and leave what the transaction leaves. -/
def Journal.Replays (journal : Journal) (tx : TxId) (pool : Pool) : Prop :=
  ∀ store : Store, (∀ id, HeldBy (pool.locks.table.records id) tx → store id = pool.base id) →
    (store.serve journal.queries).1 = journal.shown ∧
      (∀ id, HeldBy (pool.locks.table.records id) tx →
        (store.serve journal.queries).2 id = pool.content id) ∧
      ∀ id, ¬HeldBy (pool.locks.table.records id) tx →
        (store.serve journal.queries).2 id = store id

/-- What a loan shows. -/
structure Loan.Shows (loan : Loan) (history : History) (pool : Pool) : Prop where
  heldBy : HeldBy (pool.locks.table.records loan.page) loan.tx
  inside : loan.ref < pool.frames.next
  id_eq : (pool.page loan.ref).id = loan.page
  data_eq : (history.running loan.tx).writes loan.page = false →
    (pool.page loan.ref).data = pool.content loan.page

/-- What the history says about a run that started from one pool and has come to another. -/
structure History.Tells (history : History) (first pool : Pool) (loans : List Loan) : Prop where
  stored : ∀ id, (pool.stored? id).isSome = (first.stored? id).isSome
  serial : Store.serial first.content (history.committed.map Journal.queries) =
    (history.committed.map Journal.shown, pool.base)
  running : ∀ tx, (history.running tx).Replays tx pool
  loans : ∀ loan ∈ loans, loan.Shows history pool

structure History.Sound (history : History) (first : Pool) (session : Session) : Prop
    extends Tells history first session.pool session.loans where
  calls : ∀ task ∈ session.tasks,
    task.call.deed = .access ∧ history.active task.call.tx = true
  active : ∀ {id tx}, HeldBy (session.pool.locks.table.records id) tx → history.active tx = true

namespace Journal

variable {journal : Journal} {page other : PageId} {bytes chunk : Bytes} {offset : Nat}

theorem writes_read : (journal.read page bytes).writes other = journal.writes other := by
  simp [writes, read, Query.writes]

theorem writes_write :
    (journal.write page offset chunk).writes other = (journal.writes other || page = other) := by
  simp [writes, write, Query.writes]

end Journal

section Pools

variable {pool before after : Pool} {deed : Deed} {tx actor : TxId} {id page : PageId}

/-- Nobody but an owner of a page has other bytes to go back to than those it shows. -/
theorem Pool.Coherent.content_eq_base (h : pool.Coherent)
    (hfree : ∀ owner, ¬OwnedBy (pool.locks.table.records id) owner) :
    pool.content id = pool.base id :=
  (h.coherent id).content_eq_base hfree

/-- On a page that a transaction has come to hold, it finds what an abort of its own would leave. -/
theorem Pool.Evolves.content_eq_base (h : Evolves deed actor before after)
    (hbefore : before.Coherent) (hquiet : deed ≠ .change)
    (hheld : HeldBy (after.locks.table.records id) tx)
    (hnew : ¬HeldBy (before.locks.table.records id) tx) : after.content id = after.base id := by
  rw [h.content_eq hquiet hbefore, h.base_eq hbefore]
  refine hbefore.content_eq_base fun owner howner => ?_
  have howner' := h.ownedBy howner
  obtain rfl := ((h.coherent hbefore).coherent id).compatible.heldBy_eq howner' hheld
  exact hnew howner.heldBy

namespace Journal.Replays

variable {journal : Journal}

theorem empty (hfree : ∀ id, ¬HeldBy (pool.locks.table.records id) tx) :
    Journal.empty.Replays tx pool :=
  fun _ _ => ⟨rfl, fun id hheld => absurd hheld (hfree id), fun _ _ => rfl⟩

theorem congr (h : journal.Replays tx before)
    (hheld : ∀ id, HeldBy (after.locks.table.records id) tx ↔
      HeldBy (before.locks.table.records id) tx)
    (hsame : ∀ id, HeldBy (before.locks.table.records id) tx →
      after.base id = before.base id ∧ after.content id = before.content id) :
    journal.Replays tx after := by
  intro store hstore
  obtain ⟨hshown, hinside, houtside⟩ := h store fun id hid => by
    rw [hstore id ((hheld id).2 hid), (hsame id hid).1]
  refine ⟨hshown, fun id hid => ?_, fun id hid => houtside id fun hid' => hid ((hheld id).2 hid')⟩
  have hid' := (hheld id).1 hid
  rw [hinside id hid', (hsame id hid').2]

theorem evolves (h : journal.Replays tx before) (hevolves : Evolves deed actor before after)
    (hbefore : before.Coherent) (hquiet : deed ≠ .change) : journal.Replays tx after := by
  have hkept : ∀ id, HeldBy (before.locks.table.records id) tx →
      HeldBy (after.locks.table.records id) tx :=
    fun id hid => (hevolves.moves id).heldBy hquiet hid
  intro store hstore
  obtain ⟨hshown, hinside, houtside⟩ := h store fun id hid => by
    rw [hstore id (hkept id hid), hevolves.base_eq hbefore]
  refine ⟨hshown, fun id hid => ?_, fun id hid => houtside id fun hid' => hid (hkept id hid')⟩
  by_cases hold : HeldBy (before.locks.table.records id) tx
  · rw [hinside id hold, hevolves.content_eq hquiet hbefore]
  · rw [houtside id hold, hstore id hid, hevolves.content_eq_base hbefore hquiet hid hold]

theorem read (h : journal.Replays tx pool) (hheld : HeldBy (pool.locks.table.records page) tx) :
    (journal.read page (pool.content page)).Replays tx pool := by
  intro store hstore
  obtain ⟨hshown, hinside, houtside⟩ := h store hstore
  simp only [Journal.read, Store.serve_append, Store.serve, hshown, hinside page hheld]
  exact ⟨trivial, hinside, houtside⟩

theorem write (h : journal.Replays tx before) {offset : Nat} {chunk : Bytes}
    (hheld : HeldBy (before.locks.table.records page) tx)
    (hrecords : ∀ id, after.locks.table.records id = before.locks.table.records id)
    (hbase : after.base = before.base)
    (hcontent : after.content = Store.write before.content page offset chunk) :
    (journal.write page offset chunk).Replays tx after := by
  intro store hstore
  simp only [hrecords, hbase] at hstore ⊢
  obtain ⟨hshown, hinside, houtside⟩ := h store hstore
  simp only [Journal.write, Store.serve_append, Store.serve, hshown, List.append_nil, hcontent,
    Store.write, hinside page hheld]
  refine ⟨trivial, fun id hid => ?_, fun id hid => ?_⟩
  · by_cases hsame : id = page
    · subst hsame
      rw [Function.update_self, Function.update_self]
    · rw [Function.update_of_ne hsame, Function.update_of_ne hsame, hinside id hid]
  · have hne : id ≠ page := fun hsame => hid (hsame ▸ hheld)
    rw [Function.update_of_ne hne, houtside id hid]

end Journal.Replays

section Finish

variable {ending : Ending} (hfinishes : before.Finishes ending tx after) (hbefore : before.Coherent)
include hfinishes

theorem Pool.Finishes.base_of_held (hheld : HeldBy (before.locks.table.records id) tx) :
    after.base id = (before.standing id).outcome before.pageSize ending := by
  rw [Pool.base, hfinishes.held_eq id hheld, hfinishes.pageSize_eq]
  exact base_settle ..

theorem Pool.Finishes.base_of_free (hfree : ¬HeldBy (before.locks.table.records id) tx) :
    after.base id = before.base id := by
  rw [Pool.base, hfinishes.others_eq id hfree, hfinishes.pageSize_eq]
  rfl

include hbefore

/-- The end of a transaction is nothing to those who hold other pages, or read the same ones. -/
theorem Pool.Finishes.same_of_held (hother : actor ≠ tx)
    (hheld : HeldBy (before.locks.table.records id) actor) :
    after.base id = before.base id ∧ after.content id = before.content id ∧
      ∀ ref, before.cache.peek? id = some ref → after.page ref = before.page ref := by
  have hunowned : ¬OwnedBy (before.locks.table.records id) tx := fun howner =>
    hother ((hbefore.coherent id).compatible.heldBy_eq howner hheld)
  have hstanding := hfinishes.standing_eq_of_unowned hbefore hunowned
  refine ⟨?_, ?_, fun ref hpeek => ?_⟩
  · rw [Pool.base, hstanding, hfinishes.pageSize_eq]
    rfl
  · rw [Pool.content, hstanding, hfinishes.pageSize_eq]
    rfl
  · have hcached : (after.standing id).cached = some (ref, before.page ref) := by
      rw [hstanding]
      exact standing_cached hpeek
    exact (standing_cached_iff.1 hcached).2.symm

theorem Pool.Finishes.isSome_stored_eq (id : PageId) :
    (after.stored? id).isSome = (before.stored? id).isSome := by
  change (after.standing id).stored.isSome = (before.standing id).stored.isSome
  by_cases hheld : HeldBy (before.locks.table.records id) tx
  · rw [hfinishes.held_eq id hheld]
    cases hcached : (before.standing id).cached with
    | none =>
        rw [settle_of_absent hcached]
        rfl
    | some entry =>
        obtain ⟨bytes, hbytes, _⟩ := (hbefore.coherent id).resident entry.1 entry.2 hcached
        rw [settle_of_cached hcached, hbytes]
        rfl
  · rw [hfinishes.others_eq id hheld]

end Finish

/-- An abort leaves the bytes that it would have gone back to. -/
theorem Pool.Finishes.base_abort (h : before.Finishes .abort tx after) :
    after.base = before.base := by
  funext id
  by_cases hheld : HeldBy (before.locks.table.records id) tx
  · exact h.base_of_held hheld
  · exact h.base_of_free hheld

theorem Pool.content_setPage_overwritten {ref : PageRef} (hpool : pool.Sound)
    (hpeek : pool.cache.peek? id = some ref) (tx : TxId) (offset : Nat) (chunk : Bytes) :
    (pool.setPage ref ((pool.page ref).overwritten tx offset chunk)).content =
      Store.write pool.content id offset chunk := by
  rw [content_setPage hpool hpeek, Store.write, Pool.content, content_of_cached (standing_cached hpeek)]
  rfl

/-- A write changes what the loans of its page show, and they are all the writer's. -/
theorem Loan.Shows.write {history : History} {loan other : Loan}
    (h : other.Shows history before) (hbefore : before.Coherent)
    (howner : OwnedBy (before.locks.table.records loan.page) loan.tx)
    (hpeek : before.cache.peek? loan.page = some loan.ref) (offset : Nat) (chunk : Bytes) :
    other.Shows
      (history.note loan.tx ((history.running loan.tx).write loan.page offset chunk))
      (before.setPage loan.ref ((before.page loan.ref).overwritten loan.tx offset chunk)) := by
  have hsound := hbefore.toSound
  have hevolves := (evolves_rewritten hsound hpeek howner
    ((before.page loan.ref).rewritten_overwritten loan.tx offset chunk)).1
  refine ⟨h.heldBy, Nat.lt_of_lt_of_le h.inside hevolves.next_le, ?_, fun hunwritten => ?_⟩
  · rw [hevolves.id_eq other.ref h.inside, h.id_eq]
  have hpage : other.page ≠ loan.page ∧ (history.running other.tx).writes other.page = false := by
    by_cases hwriter : other.tx = loan.tx
    · simp only [History.note, hwriter, Function.update_self, Journal.writes_write,
        Bool.or_eq_false_iff, decide_eq_false_iff_not] at hunwritten
      rw [hwriter]
      exact ⟨Ne.symm hunwritten.2, hunwritten.1⟩
    · simp only [History.note, Function.update_of_ne hwriter] at hunwritten
      refine ⟨fun hsame => ?_, hunwritten⟩
      rw [← hsame] at howner
      exact hwriter ((hbefore.coherent _).compatible.heldBy_eq howner h.heldBy)
  have hobject : other.ref ≠ loan.ref := by
    intro hsame
    have hid := h.id_eq
    rw [hsame, hsound.named hpeek] at hid
    exact hpage.1 hid.symm
  rw [page_setPage, if_neg fun hwritten => hobject hwritten.1,
    content_setPage_overwritten hsound hpeek, Store.write, Function.update_of_ne hpage.1]
  exact h.data_eq hpage.2

namespace History

variable {history : History} {first : Pool} {loans : List Loan} {loan : Loan}

/-- Whoever does not write pages keeps all that has been shown up to date. -/
theorem Tells.evolves (h : history.Tells first before loans)
    (hevolves : Evolves deed actor before after) (hbefore : before.Coherent)
    (hquiet : deed ≠ .change) : history.Tells first after loans := by
  refine ⟨fun id => ?_, ?_, fun tx => (h.running tx).evolves hevolves hbefore hquiet, ?_⟩
  · rw [← h.stored id]
    have hmoves := hevolves.moves id
    cases hstored : before.stored? id with
    | some bytes =>
        have hsome : (before.standing id).stored.isSome := by
          change (before.stored? id).isSome
          rw [hstored]
          rfl
        exact hmoves.isSome_stored hsome
    | none =>
        have hnone := hmoves.stored_eq_none hquiet (hbefore.coherent id) hstored
        change (after.standing id).stored.isSome = _
        rw [hnone]
  · rw [hevolves.base_eq hbefore]
    exact h.serial
  · intro loan hmem
    have hloan := h.loans loan hmem
    refine ⟨(hevolves.moves _).heldBy hquiet hloan.heldBy,
      Nat.lt_of_lt_of_le hloan.inside hevolves.next_le, ?_, fun hunwritten => ?_⟩
    · rw [hevolves.id_eq loan.ref hloan.inside, hloan.id_eq]
    · rw [hevolves.data_eq hquiet loan.ref hloan.inside, hevolves.content_eq hquiet hbefore]
      exact hloan.data_eq hunwritten

theorem Tells.lend (hpool : pool.Coherent) (hpeek : pool.cache.peek? loan.page = some loan.ref)
    (hheld : HeldBy (pool.locks.table.records loan.page) loan.tx) : loan.Shows history pool where
  heldBy := hheld
  inside := hpool.inside hpeek
  id_eq := hpool.named hpeek
  data_eq _ := (content_of_cached (standing_cached hpeek)).symm

/-- A loan shows the bytes of its page, unless it is outdated. -/
theorem Tells.shown (h : history.Tells first pool loans) (hmem : loan ∈ loans)
    (hcurrent : pool.cache.peek? loan.page = some loan.ref ∨
      (history.running loan.tx).writes loan.page = false) :
    (pool.page loan.ref).data = pool.content loan.page := by
  rcases hcurrent with hpeek | hunwritten
  · exact (content_of_cached (standing_cached hpeek)).symm
  · exact (h.loans loan hmem).data_eq hunwritten

theorem Tells.read (h : history.Tells first pool loans) (hmem : loan ∈ loans)
    (hcurrent : pool.cache.peek? loan.page = some loan.ref ∨
      (history.running loan.tx).writes loan.page = false) :
    (history.note loan.tx
      ((history.running loan.tx).read loan.page (pool.page loan.ref).data)).Tells first pool
        loans := by
  rw [h.shown hmem hcurrent]
  refine ⟨h.stored, h.serial, fun tx => ?_, fun other hother => ?_⟩
  · by_cases hreader : tx = loan.tx
    · subst hreader
      simp only [note, Function.update_self]
      exact (h.running loan.tx).read (h.loans loan hmem).heldBy
    · simp only [note, Function.update_of_ne hreader]
      exact h.running tx
  · have hloan := h.loans other hother
    refine ⟨hloan.heldBy, hloan.inside, hloan.id_eq, fun hunwritten => hloan.data_eq ?_⟩
    by_cases hreader : other.tx = loan.tx
    · simpa only [note, hreader, Function.update_self, Journal.writes_read] using hunwritten
    · simpa only [note, Function.update_of_ne hreader] using hunwritten

theorem Tells.write (h : history.Tells first before loans) (hbefore : before.Coherent)
    (howner : OwnedBy (before.locks.table.records loan.page) loan.tx)
    (hpeek : before.cache.peek? loan.page = some loan.ref) (offset : Nat) (chunk : Bytes) :
    (history.note loan.tx ((history.running loan.tx).write loan.page offset chunk)).Tells first
      (before.setPage loan.ref ((before.page loan.ref).overwritten loan.tx offset chunk))
      loans := by
  have hevolves := (evolves_rewritten hbefore.toSound hpeek howner
    ((before.page loan.ref).rewritten_overwritten loan.tx offset chunk)).1
  have hcontent := content_setPage_overwritten hbefore.toSound hpeek loan.tx offset chunk
  refine ⟨h.stored, ?_, fun tx => ?_, fun other hother =>
    (h.loans other hother).write hbefore howner hpeek offset chunk⟩
  · rw [hevolves.base_eq hbefore]
    exact h.serial
  · by_cases hwriter : tx = loan.tx
    · subst hwriter
      simp only [note, Function.update_self]
      exact (h.running loan.tx).write howner.heldBy (fun _ => rfl) (hevolves.base_eq hbefore)
        hcontent
    · simp only [note, Function.update_of_ne hwriter]
      refine (h.running tx).congr (fun _ => Iff.rfl) fun id hheld => ?_
      have hne : id ≠ loan.page := by
        rintro rfl
        exact hwriter ((hbefore.coherent _).compatible.heldBy_eq howner hheld)
      rw [hevolves.base_eq hbefore, hcontent, Store.write, Function.update_of_ne hne]
      exact ⟨rfl, rfl⟩

theorem Tells.serial_finish {ending : Ending} (h : history.Tells first before loans)
    (hfinishes : before.Finishes ending tx after) :
    Store.serial first.content ((history.finish ending tx).committed.map Journal.queries) =
      ((history.finish ending tx).committed.map Journal.shown, after.base) := by
  cases ending with
  | abort =>
      rw [hfinishes.base_abort]
      exact h.serial
  | commit =>
      obtain ⟨hshown, hinside, houtside⟩ := h.running tx before.base fun _ _ => rfl
      have hbase : (Store.serve before.base (history.running tx).queries).2 = after.base := by
        funext id
        by_cases hheld : HeldBy (before.locks.table.records id) tx
        · rw [hinside id hheld, hfinishes.base_of_held hheld]
          rfl
        · rw [houtside id hheld, hfinishes.base_of_free hheld]
      simp only [finish, List.map_append, List.map_cons, List.map_nil, Store.serial_append,
        h.serial, Store.serial, hshown, hbase]

theorem Tells.finish {ending : Ending} (h : history.Tells first before loans)
    (hbefore : before.Coherent) (hfinishes : before.Finishes ending tx after) :
    (history.finish ending tx).Tells first after (loans.filter (·.tx ≠ tx)) := by
  refine ⟨fun id => ?_, h.serial_finish hfinishes, fun other => ?_, fun loan hmem => ?_⟩
  · rw [hfinishes.isSome_stored_eq hbefore, h.stored id]
  · by_cases hother : other = tx
    · subst hother
      simp only [History.finish, Function.update_self]
      exact .empty fun id hid => ((hfinishes.heldBy_iff id).1 hid).2 rfl
    · simp only [History.finish, Function.update_of_ne hother]
      refine (h.running other).congr (fun id => ?_) fun id hid => ?_
      · rw [hfinishes.heldBy_iff, and_iff_left hother]
      · obtain ⟨hbase, hcontent, _⟩ := hfinishes.same_of_held hbefore hother hid
        exact ⟨hbase, hcontent⟩
  · obtain ⟨hmem, hne⟩ := List.mem_filter.1 hmem
    have hother : loan.tx ≠ tx := by simpa using hne
    have hloan := h.loans loan hmem
    obtain ⟨_, hcontent, hobject⟩ := hfinishes.same_of_held hbefore hother hloan.heldBy
    have hpage : after.page loan.ref = before.page loan.ref := by
      by_cases hpeek : before.cache.peek? loan.page = some loan.ref
      · exact hobject loan.ref hpeek
      · refine hfinishes.page_eq loan.ref fun id _ hother => hpeek ?_
        rw [← hloan.id_eq, hbefore.named hother]
        exact hother
    refine ⟨(hfinishes.heldBy_iff _).2 ⟨hloan.heldBy, hother⟩, ?_, ?_, fun hunwritten => ?_⟩
    · rw [hfinishes.next_eq]
      exact hloan.inside
    · rw [hpage, hloan.id_eq]
    · rw [hpage, hcontent]
      apply hloan.data_eq
      simpa only [History.finish, Function.update_of_ne hother] using hunwritten

end History

end Pools

end PagePool
