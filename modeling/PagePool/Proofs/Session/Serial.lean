import PagePool.Proofs.Session.Coherence
import PagePool.Proofs.Session.Recount

/-!
# Serial order

Transactions that only get, read and write pages are shown what they would be shown if those that
commit ran one after the other, in the order of their commits, and they leave the same bytes in
storage. One read is left out: a page that is got for reading is not kept in the cache, so its
handle goes on showing old bytes when its own transaction gets the page again and writes it.
-/

namespace PagePool

open LockRecord Standing Pool

/-- Where nobody has a page locked for writing, storage has the bytes that an abort would leave. -/
theorem Pool.Coherent.base_eq_stored {pool : Pool} (h : pool.Coherent) {id : PageId} {bytes : Bytes}
    (hfree : ∀ owner, ¬OwnedBy (pool.locks.table.records id) owner)
    (hstored : pool.stored? id = some bytes) : pool.base id = bytes := by
  have hunstolen : ∀ ref page, (pool.standing id).cached = some (ref, page) →
      page.stolen = false := by
    intro ref page hcached
    obtain ⟨_, _, hsettled⟩ := (h.coherent id).settled hfree hcached
    exact hsettled.stolen_eq
  have hstored' : (pool.standing id).stored = some bytes := hstored
  rw [Pool.base, ← (h.coherent id).onDisk_eq_base hunstolen, onDisk, hstored', Option.getD_some]

/-- Two transactions that take turns at the only place in the cache. -/
def sharing : List Event :=
  [.start 0 (.get 1 ⟨0, 0⟩ .shared), .evaluate 0, .start 1 (.get 2 ⟨0, 1⟩ .shared), .evaluate 1,
    .command (.read 0), .start 2 (.get 1 ⟨0, 0⟩ .exclusive), .evaluate 2, .command (.read 1),
    .command (.write 2 1 0 [9]), .command .flushAll, .command (.finish .commit 1),
    .start 3 (.get 2 ⟨0, 0⟩ .shared), .evaluate 3, .command (.read 3),
    .command (.finish .commit 2)]

/-- The same transactions, one after the other. -/
def queueing : List Event :=
  [.start 0 (.get 1 ⟨0, 0⟩ .exclusive), .evaluate 0, .command (.read 0),
    .command (.write 0 1 0 [9]), .command (.finish .commit 1),
    .start 1 (.get 2 ⟨0, 1⟩ .shared), .evaluate 1, .command (.read 1),
    .start 2 (.get 2 ⟨0, 0⟩ .shared), .evaluate 2, .command (.read 2),
    .command (.finish .commit 2)]

/-- A page leaves the cache between the two calls that get it for the same transaction. -/
def overtaken : List Event :=
  [.start 0 (.get 1 ⟨0, 0⟩ .shared), .evaluate 0, .start 1 (.get 2 ⟨0, 1⟩ .shared), .evaluate 1,
    .start 2 (.get 1 ⟨0, 0⟩ .exclusive), .evaluate 2, .command (.write 2 1 0 [9]),
    .command (.read 0), .command (.finish .commit 1), .command (.finish .commit 2)]

/-- The same transactions, one after the other. -/
def orderly : List Event :=
  [.start 0 (.get 1 ⟨0, 0⟩ .shared), .evaluate 0, .start 2 (.get 1 ⟨0, 0⟩ .exclusive),
    .evaluate 2, .command (.write 2 1 0 [9]), .command (.read 0), .command (.finish .commit 1),
    .start 1 (.get 2 ⟨0, 1⟩ .shared), .evaluate 1, .command (.finish .commit 2)]

namespace Session

/-- A run of transactions that get, read and write pages, all of which have ended. -/
structure Completes (session : Session) (events : List Event) : Prop where
  follows : session.Follows events
  plain : ∀ event ∈ events, event.Plain
  ended : ∀ tx, (session.recount .start events).active tx = false

/-- What the reads through a handle have shown, the latest first. -/
def reads (session : Session) (handle : Nat) : List Bytes :=
  session.log.filterMap fun entry =>
    match entry with
    | .command (.read other) (.ok (.bytes bytes)) => if other = handle then some bytes else none
    | _ => none

variable {pool : Pool} {now : Nat} {events : List Event}

theorem Completes.of_follows (h : (ofPool pool now).Follows events)
    (hplain : ∀ event ∈ events, event.Plain)
    (hended : ∀ event ∈ events, ∀ tx ∈ event.begins?,
      Event.activateAll events (fun _ => false) tx = false) :
    (ofPool pool now).Completes events where
  follows := h
  plain := hplain
  ended tx := by
    rw [active_recount]
    exact Event.activateAll_eq_false hended tx

/-- What has been committed can be replayed one transaction after the other. -/
theorem Completes.serial (h : (ofPool pool now).Completes events) (hready : pool.Ready) :
    let history := (ofPool pool now).recount .start events
    let after := ((ofPool pool now).run events).pool
    Store.serial pool.content (history.committed.map Journal.queries) =
        (history.committed.map Journal.shown, after.base) ∧
      ∀ id, after.stored? id = (pool.stored? id).map fun _ => after.base id := by
  intro history after
  have hhistory := h.follows.history (.ofPool hready now) h.plain (.start hready now)
  refine ⟨hhistory.serial, fun id => ?_⟩
  have hfree : ∀ owner, ¬OwnedBy (after.locks.table.records id) owner := by
    intro owner howner
    have hactive := hhistory.active howner.heldBy
    rw [h.ended owner] at hactive
    cases hactive
  have hsame := hhistory.stored id
  cases hstored : after.stored? id with
  | none =>
      rw [hstored] at hsame
      have hnone := Option.isNone_iff_eq_none.1 (Option.isSome_eq_false_iff.1 hsame.symm)
      rw [hnone, Option.map_none]
  | some bytes =>
      rw [hstored] at hsame
      obtain ⟨old, hold⟩ := Option.isSome_iff_exists.1 hsame.symm
      rw [hold, Option.map_some,
        (h.follows.sound hready).coherent.base_eq_stored hfree hstored]

/-- **Serializability.** However transactions interleave, those that commit are shown what they are
shown when they run one after the other, in the order of their commits, and storage has the same
bytes in the end. So it has in any other run in which the same transactions commit in this order. -/
theorem serializable (hready : pool.Ready) (h : (ofPool pool now).Completes events) :
    let history := (ofPool pool now).recount .start events
    let after := ((ofPool pool now).run events).pool
    (∃ last, Store.serial pool.content (history.committed.map Journal.queries) =
        (history.committed.map Journal.shown, last) ∧
      ∀ id, after.stored? id = (pool.stored? id).map fun _ => last id) ∧
    ∀ {time alone}, (ofPool pool time).Completes alone →
      ((ofPool pool time).recount .start alone).committed.map Journal.queries =
        history.committed.map Journal.queries →
      ((ofPool pool time).recount .start alone).committed.map Journal.shown =
          history.committed.map Journal.shown ∧
        ∀ id, ((ofPool pool time).run alone).pool.stored? id = after.stored? id := by
  intro history after
  obtain ⟨hserial, hstored⟩ := h.serial hready
  refine ⟨⟨after.base, hserial, hstored⟩, fun {time alone} halone hqueries => ?_⟩
  obtain ⟨hserial', hstored'⟩ := halone.serial hready
  rw [hqueries, hserial] at hserial'
  obtain ⟨hshown, hbase⟩ := Prod.mk.inj hserial'
  refine ⟨hshown.symm, fun id => ?_⟩
  calc ((ofPool pool time).run alone).pool.stored? id
      = (pool.stored? id).map fun _ => ((ofPool pool time).run alone).pool.base id := hstored' id
    _ = (pool.stored? id).map fun _ => after.base id := by rw [hbase]
    _ = after.stored? id := (hstored id).symm

theorem completes_sharing : (ofPool .onePlace 0).Completes sharing :=
  .of_follows (by decide_cbv) (by decide_cbv) (by decide_cbv)

theorem completes_queueing : (ofPool .onePlace 0).Completes queueing :=
  .of_follows (by decide_cbv) (by decide_cbv) (by decide_cbv)

/-- Each of the transactions sees what it sees when it has the pool for itself. -/
theorem serializable_sharing :
    let history := (ofPool .onePlace 0).recount .start sharing
    let other := (ofPool .onePlace 0).recount .start queueing
    history.committed.map Journal.shown = [[[1, 2]], [[3, 4], [9, 2]]] ∧
      other.committed.map Journal.shown = history.committed.map Journal.shown ∧
      ∀ id, ((ofPool .onePlace 0).run queueing).pool.stored? id =
        ((ofPool .onePlace 0).run sharing).pool.stored? id := by
  refine ⟨by decide_cbv, ?_⟩
  exact (serializable Pool.onePlace_ready completes_sharing).2 completes_queueing (by decide_cbv)

theorem completes_overtaken : (ofPool .onePlace 0).Completes overtaken :=
  .of_follows (by decide_cbv) (by decide_cbv) (by decide_cbv)

theorem completes_orderly : (ofPool .onePlace 0).Completes orderly :=
  .of_follows (by decide_cbv) (by decide_cbv) (by decide_cbv)

/-- A handle that was overtaken by a later one of the same transaction shows old bytes. -/
theorem reads_overtaken :
    (ofPool .onePlace 0).Completes overtaken ∧ (ofPool .onePlace 0).Completes orderly ∧
      overtaken.Perm orderly ∧
      ((ofPool .onePlace 0).run overtaken).reads 0 = [[1, 2]] ∧
      ((ofPool .onePlace 0).run orderly).reads 0 = [[9, 2]] :=
  ⟨completes_overtaken, completes_orderly, by decide, by decide_cbv, by decide_cbv⟩

end Session

end PagePool
