import Mathlib
import PagePool.Proofs.Cache

/-!
# Recency

A cache is used by calls that come one after the other. Between them the flags and the latches of
the page objects change in any way, and so do the pages that are pinned. The calls and their
replies tell which page objects are resident and when each was used for the last time; the cache
lists exactly these, in the order of their last uses.
-/

namespace PagePool

/-- A call of the cache. A put meets the page objects and the pinned pages as they are just then. -/
inductive CacheCall where
  | put (frames : Frames) (pinned : PageId → Bool) (page : PageId) (ref : PageRef)
  | get (page : PageId)
  | peek (page : PageId)
  | contains (page : PageId)
  | remove (page : PageId)

inductive CacheReply where
  | stored (result : Except Error Evicted)
  | object (found : Option PageRef)
  | flag (value : Bool)
  deriving DecidableEq

namespace CacheCall

def reply (cache : Cache) : CacheCall → CacheReply × Cache
  | .put frames pinned page ref =>
      match cache.put frames pinned page ref with
      | .ok (evicted, after) => (.stored (.ok evicted), after)
      | .error error => (.stored (.error error), cache)
  | .get page => (.object (cache.get? page).1, (cache.get? page).2)
  | .peek page => (.object (cache.peek? page), cache)
  | .contains page => (.flag (cache.contains page), cache)
  | .remove page => (.object (cache.peek? page), cache.remove page)

/-- The page that a call uses; a look at the cache uses none. -/
def used? : CacheCall → Option PageId
  | .put _ _ page _ | .get page => some page
  | .peek _ | .contains _ | .remove _ => none

end CacheCall

/-- Calls with their replies, the latest first. -/
abbrev CacheLog := List (CacheCall × CacheReply)

namespace CacheLog

/-- The number of the last call that used a page. -/
def lastUse (page : PageId) : CacheLog → Nat
  | [] => 0
  | (call, _) :: earlier =>
      if call.used? = some page then earlier.length + 1 else lastUse page earlier

/-- The object of a page that has come in and not gone since: a put brings one in and may drive
another out. -/
def object? (page : PageId) : CacheLog → Option PageRef
  | [] => none
  | (.put _ _ put ref, .stored (.ok evicted)) :: earlier =>
      if page = put then some ref
      else if evicted.map Prod.fst = some page then none
      else object? page earlier
  | (.remove removed, _) :: earlier => if page = removed then none else object? page earlier
  | _ :: earlier => object? page earlier

/-- The entries stand in the order of the last uses of their pages, the latest first. -/
def Orders (log : CacheLog) (cache : Cache) : Prop :=
  cache.entries.Pairwise fun newer older => log.lastUse older.1 < log.lastUse newer.1

theorem lastUse_le (page : PageId) (log : CacheLog) : log.lastUse page ≤ log.length := by
  induction log with
  | nil => exact Nat.le_refl 0
  | cons entry earlier ih =>
      rw [lastUse, List.length_cons]
      split <;> omega

end CacheLog

/-- A cache with the calls it has answered. -/
structure CacheUse where
  cache : Cache
  log : CacheLog

namespace CacheUse

def step (use : CacheUse) (call : CacheCall) : CacheUse :=
  { cache := (call.reply use.cache).2, log := (call, (call.reply use.cache).1) :: use.log }

def run (use : CacheUse) (calls : List CacheCall) : CacheUse :=
  calls.foldl step use

/-- The cache lists the resident pages with their objects, each once, the latest used first, and
never more than fit. -/
structure Exact (use : CacheUse) (capacity : Nat) : Prop where
  capacity_eq : use.cache.capacity = capacity
  mem_iff : ∀ page ref, (page, ref) ∈ use.cache.entries ↔ use.log.object? page = some ref
  nodup : use.cache.pages.Nodup
  orders : use.log.Orders use.cache
  length_le : use.cache.entries.length ≤ capacity

end CacheUse

namespace Cache

variable {cache : Cache} {frames : Frames} {pinned : PageId → Bool} {page : PageId} {ref : PageRef}
  {entry victim : PageId × PageRef} {log : CacheLog}

/-- A resident page that a put may drive out. Its latch can be read, so nobody is writing it; a latch
that a writer has poisoned cannot be read and keeps its page. -/
structure Spares (cache : Cache) (frames : Frames) (pinned : PageId → Bool)
    (entry : PageId × PageRef) : Prop where
  resident : entry ∈ cache.entries
  unpinned : pinned entry.1 = false
  readable : (frames.frame entry.2).latch.refusesRead = false
  clean : (frames.page entry.2).dirty = none
  unstolen : (frames.page entry.2).stolen = false

/-- Of the pages that a put may drive out, the one that was not used for the longest time. -/
structure LeastRecent (cache : Cache) (log : CacheLog) (frames : Frames)
    (pinned : PageId → Bool) (victim : PageId × PageRef) : Prop where
  spares : cache.Spares frames pinned victim
  oldest : ∀ other, cache.Spares frames pinned other → other ≠ victim →
    log.lastUse victim.1 < log.lastUse other.1

theorem spares_iff :
    cache.Spares frames pinned entry ↔
      entry ∈ cache.entries ∧ (!pinned entry.1 && (frames.frame entry.2).isSpare) = true := by
  simp only [Frame.isSpare, Bool.and_eq_true, Bool.not_eq_true', Option.isNone_iff_eq_none]
  constructor
  · intro h
    exact ⟨h.resident, h.unpinned, ⟨h.readable, h.clean⟩, h.unstolen⟩
  · intro h
    exact ⟨h.1, h.2.1, h.2.2.1.1, h.2.2.1.2, h.2.2.2⟩

/-- Every page is listed once, so an entry goes with its page. -/
theorem remove_entries_of_mem (hnodup : cache.pages.Nodup) (hmem : victim ∈ cache.entries) :
    (cache.remove victim.1).entries = cache.entries.filter (· ≠ victim) := by
  apply List.filter_congr
  intro entry hentry
  have hsame : entry.1 = victim.1 → entry = victim := fun heq =>
    List.inj_on_of_nodup_map hnodup hentry hmem heq
  have : entry.1 = victim.1 ↔ entry = victim := ⟨hsame, congrArg Prod.fst⟩
  simp [this]

/-- The entries are searched from their end, where the oldest uses are. -/
theorem victim?_eq_some_iff (horders : log.Orders cache) :
    cache.victim? frames pinned = some victim ↔ cache.LeastRecent log frames pinned victim := by
  have oldest : ∀ {found}, cache.victim? frames pinned = some found →
      cache.LeastRecent log frames pinned found := by
    intro found hfound
    obtain ⟨hspare, before, behind, hsplit, hbefore⟩ := List.find?_eq_some_iff_append.1 hfound
    have hentries : cache.entries = behind.reverse ++ found :: before.reverse := by
      have := congrArg List.reverse hsplit
      simpa using this
    refine ⟨spares_iff.2 ⟨?_, hspare⟩, ?_⟩
    · rw [hentries]
      exact List.mem_append_right _ List.mem_cons_self
    intro other hother hne
    have hmem := hother.resident
    rw [hentries, List.mem_append, List.mem_cons] at hmem
    rw [CacheLog.Orders, hentries, List.pairwise_append] at horders
    rcases hmem with hbehind | heq | hbefore'
    · exact horders.2.2 other hbehind found List.mem_cons_self
    · exact absurd heq hne
    · have := hbefore other (List.mem_reverse.1 hbefore')
      rw [(spares_iff.1 hother).2] at this
      cases this
  constructor
  · exact oldest
  intro hleast
  cases hfound : cache.victim? frames pinned with
  | none =>
      have := List.find?_eq_none.1 hfound victim (List.mem_reverse.2 hleast.spares.resident)
      exact absurd (spares_iff.1 hleast.spares).2 this
  | some found =>
      by_cases heq : found = victim
      · rw [heq]
      · have := hleast.oldest found (oldest hfound).spares heq
        have := (oldest hfound).oldest victim hleast.spares (Ne.symm heq)
        omega

theorem victim?_eq_none_iff :
    cache.victim? frames pinned = none ↔ ∀ entry, ¬cache.Spares frames pinned entry := by
  rw [victim?, List.find?_eq_none]
  simp only [spares_iff, List.mem_reverse, not_and]

end Cache

namespace CacheLog

variable {cache : Cache} {page : PageId} {log : CacheLog} {call : CacheCall} {reply : CacheReply}

/-- The use of a page that is not listed changes nothing in the order of the others. -/
theorem Orders.of_unused (h : log.Orders cache)
    (hunused : ∀ entry ∈ cache.entries, call.used? ≠ some entry.1) :
    Orders ((call, reply) :: log) cache := by
  apply List.Pairwise.imp_of_mem _ h
  intro newer older hnewer holder hlt
  rw [lastUse, lastUse, if_neg (hunused older holder), if_neg (hunused newer hnewer)]
  exact hlt

theorem Orders.remove (h : log.Orders cache) (page : PageId) : log.Orders (cache.remove page) :=
  List.Pairwise.filter _ h

/-- The page in front is the one that has just been used. -/
theorem Orders.promote (h : log.Orders cache) (hused : call.used? = some page) (ref : PageRef) :
    Orders ((call, reply) :: log) (cache.promote page ref) := by
  refine List.pairwise_cons.2 ⟨?_, ?_⟩
  · intro older hmem
    have hne : call.used? ≠ some older.1 := by
      rw [hused, Ne, Option.some.injEq]
      exact Ne.symm (Cache.mem_remove.1 hmem).2
    rw [lastUse, lastUse, if_neg hne, if_pos hused]
    exact Nat.lt_succ_of_le (log.lastUse_le older.1)
  · apply (h.remove page).of_unused
    intro entry hmem
    rw [hused, Ne, Option.some.injEq]
    exact Ne.symm (Cache.mem_remove.1 hmem).2

end CacheLog

namespace CacheUse

variable {use : CacheUse} {capacity : Nat}

theorem Exact.peek?_eq (h : use.Exact capacity) (page : PageId) :
    use.cache.peek? page = use.log.object? page := by
  apply Option.ext
  intro ref
  rw [Cache.peek?_eq_some_iff h.nodup, h.mem_iff]

section Put

variable {frames : Frames} {pinned : PageId → Bool} {page : PageId} {ref : PageRef}
  {victim : PageId × PageRef}

theorem reply_of_room
    (h : page ∈ use.cache.pages ∨ use.cache.entries.length < use.cache.capacity) :
    (CacheCall.put frames pinned page ref).reply use.cache =
      (.stored (.ok none), use.cache.promote page ref) := by
  rw [CacheCall.reply, Cache.put_of_room h]

theorem reply_of_victim (habsent : page ∉ use.cache.pages)
    (hfull : use.cache.capacity ≤ use.cache.entries.length)
    (hvictim : use.cache.victim? frames pinned = some victim) :
    (CacheCall.put frames pinned page ref).reply use.cache =
      (.stored (.ok (some victim)), (use.cache.remove victim.1).promote page ref) := by
  rw [CacheCall.reply, Cache.put_of_full habsent hfull, hvictim]

theorem reply_of_none (habsent : page ∉ use.cache.pages)
    (hfull : use.cache.capacity ≤ use.cache.entries.length)
    (hvictim : use.cache.victim? frames pinned = none) :
    (CacheCall.put frames pinned page ref).reply use.cache =
      (.stored (.error (.noVictim use.cache.entries.length)), use.cache) := by
  rw [CacheCall.reply, Cache.put_of_full habsent hfull, hvictim]

theorem Exact.put_room (h : use.Exact capacity)
    (hroom : page ∈ use.cache.pages ∨ use.cache.entries.length < use.cache.capacity) :
    (use.step (.put frames pinned page ref)).Exact capacity := by
  unfold step
  rw [reply_of_room hroom]
  refine ⟨h.capacity_eq, ?_, Cache.nodup_promote h.nodup page ref, h.orders.promote rfl ref, ?_⟩
  · intro other object
    rw [Cache.mem_promote, h.mem_iff, CacheLog.object?]
    by_cases hsame : other = page
    · simp [hsame, eq_comm]
    · simp [hsame]
  · rcases hroom with hmem | hlt
    · exact Nat.le_trans (Cache.length_remove_lt hmem) h.length_le
    · have := Cache.length_promote_le use.cache page ref
      have := h.capacity_eq
      dsimp only
      omega

theorem Exact.put_evicting (h : use.Exact capacity) (habsent : page ∉ use.cache.pages)
    (hfull : use.cache.capacity ≤ use.cache.entries.length)
    (hvictim : use.cache.victim? frames pinned = some victim) :
    (use.step (.put frames pinned page ref)).Exact capacity := by
  have hmem := ((Cache.victim?_eq_some_iff h.orders).1 hvictim).spares.resident
  have hlt := Cache.length_remove_lt (List.mem_map_of_mem hmem)
  unfold step
  rw [reply_of_victim habsent hfull hvictim]
  refine ⟨h.capacity_eq, ?_, Cache.nodup_promote (Cache.nodup_remove h.nodup _) page ref,
    (h.orders.remove victim.1).promote rfl ref, ?_⟩
  · intro other object
    rw [Cache.mem_promote, Cache.mem_remove, h.mem_iff, CacheLog.object?]
    by_cases hsame : other = page
    · simp [hsame, eq_comm]
    · by_cases hgone : other = victim.1
      · simp [hgone, eq_comm]
      · simp [hsame, hgone, Ne.symm hgone]
  · have := Cache.length_promote_le (use.cache.remove victim.1) page ref
    have := h.length_le
    dsimp only
    omega

theorem Exact.put_refused (h : use.Exact capacity) (habsent : page ∉ use.cache.pages)
    (hfull : use.cache.capacity ≤ use.cache.entries.length)
    (hvictim : use.cache.victim? frames pinned = none) :
    (use.step (.put frames pinned page ref)).Exact capacity := by
  unfold step
  rw [reply_of_none habsent hfull hvictim]
  refine ⟨h.capacity_eq, h.mem_iff, h.nodup, h.orders.of_unused ?_, h.length_le⟩
  intro entry hmem heq
  rw [CacheCall.used?, Option.some.injEq] at heq
  exact habsent (heq ▸ List.mem_map_of_mem hmem)

end Put

theorem Exact.get (h : use.Exact capacity) (page : PageId) :
    (use.step (.get page)).Exact capacity := by
  simp only [step, CacheCall.reply, Cache.get?]
  cases hpeek : use.cache.peek? page with
  | some ref =>
      have hmem := (Cache.peek?_eq_some_iff h.nodup).1 hpeek
      refine ⟨h.capacity_eq, ?_, Cache.nodup_promote h.nodup page ref, h.orders.promote rfl ref,
        Nat.le_trans (Cache.length_remove_lt (List.mem_map_of_mem hmem)) h.length_le⟩
      intro other object
      change _ ↔ use.log.object? other = some object
      rw [Cache.mem_promote, h.mem_iff]
      rw [h.mem_iff] at hmem
      by_cases hsame : other = page
      · simp [hsame, hmem, eq_comm]
      · simp [hsame]
  | none =>
      refine ⟨h.capacity_eq, h.mem_iff, h.nodup, h.orders.of_unused ?_, h.length_le⟩
      intro entry hmem heq
      rw [CacheCall.used?, Option.some.injEq] at heq
      rw [h.mem_iff, ← h.peek?_eq, ← heq, hpeek] at hmem
      cases hmem

theorem Exact.remove (h : use.Exact capacity) (page : PageId) :
    (use.step (.remove page)).Exact capacity := by
  refine ⟨h.capacity_eq, ?_, Cache.nodup_remove h.nodup page,
    (h.orders.remove page).of_unused (fun _ _ => nofun),
    Nat.le_trans (List.length_filter_le _ _) h.length_le⟩
  intro other object
  change _ ∈ (use.cache.remove page).entries ↔ _
  rw [Cache.mem_remove, h.mem_iff, step, CacheLog.object?]
  by_cases hsame : other = page <;> simp [hsame]

theorem Exact.step (h : use.Exact capacity) (call : CacheCall) :
    (use.step call).Exact capacity := by
  cases call with
  | put frames pinned page ref =>
      by_cases hroom : page ∈ use.cache.pages ∨ use.cache.entries.length < use.cache.capacity
      · exact h.put_room hroom
      obtain ⟨habsent, hfull⟩ := not_or.1 hroom
      cases hvictim : use.cache.victim? frames pinned with
      | some victim => exact h.put_evicting habsent (Nat.le_of_not_lt hfull) hvictim
      | none => exact h.put_refused habsent (Nat.le_of_not_lt hfull) hvictim
  | get page => exact h.get page
  | peek page =>
      exact ⟨h.capacity_eq, h.mem_iff, h.nodup, h.orders.of_unused fun _ _ => nofun, h.length_le⟩
  | contains page =>
      exact ⟨h.capacity_eq, h.mem_iff, h.nodup, h.orders.of_unused fun _ _ => nofun, h.length_le⟩
  | remove page => exact h.remove page

theorem Exact.run (h : use.Exact capacity) (calls : List CacheCall) :
    (use.run calls).Exact capacity := by
  induction calls generalizing use with
  | nil => exact h
  | cons call rest ih => exact ih (h.step call)

theorem exact_of_empty (capacity : Nat) :
    Exact { cache := { capacity, entries := [] }, log := [] } capacity where
  capacity_eq := rfl
  mem_iff _ _ := by simp [CacheLog.object?]
  nodup := List.nodup_nil
  orders := List.Pairwise.nil
  length_le := Nat.zero_le capacity

/-- What a put does. A page that is resident or for which there is room drives nothing out. Another
one drives out the least recently used page that may leave, and if there is none, the put is
refused and nothing has changed. -/
structure Puts (use : CacheUse) (frames : Frames) (pinned : PageId → Bool) (page : PageId)
    (ref : PageRef) (result : CacheReply × Cache) : Prop where
  replaces : page ∈ use.cache.pages → result.1 = .stored (.ok none) ∧
    result.2.entries = (page, ref) :: use.cache.entries.filter fun entry => entry.1 ≠ page
  fits : page ∉ use.cache.pages → use.cache.entries.length < use.cache.capacity →
    result.1 = .stored (.ok none) ∧ result.2.entries = (page, ref) :: use.cache.entries
  evicts : page ∉ use.cache.pages → use.cache.capacity ≤ use.cache.entries.length →
    ∀ victim, result.1 = .stored (.ok (some victim)) ↔
      use.cache.LeastRecent use.log frames pinned victim
  keeps : ∀ victim, result.1 = .stored (.ok (some victim)) →
    result.2.entries = (page, ref) :: use.cache.entries.filter (· ≠ victim)
  fails : page ∉ use.cache.pages → use.cache.capacity ≤ use.cache.entries.length →
    ((∃ error, result.1 = .stored (.error error) ∧ error.kind = .resourceExhausted) ↔
      ∀ entry, ¬use.cache.Spares frames pinned entry)
  refused : ∀ error, result.1 = .stored (.error error) → result.2 = use.cache

theorem Exact.puts (h : use.Exact capacity) (frames : Frames) (pinned : PageId → Bool)
    (page : PageId) (ref : PageRef) :
    use.Puts frames pinned page ref ((CacheCall.put frames pinned page ref).reply use.cache) := by
  by_cases hroom : page ∈ use.cache.pages ∨ use.cache.entries.length < use.cache.capacity
  · rw [reply_of_room hroom]
    have hfits : page ∉ use.cache.pages → ¬use.cache.capacity ≤ use.cache.entries.length :=
      fun habsent => Nat.not_le_of_lt (hroom.resolve_left habsent)
    refine ⟨fun _ => ⟨rfl, rfl⟩, fun habsent _ => ⟨rfl, ?_⟩, fun habsent hfull => ?_,
      by rintro _ ⟨⟩, fun habsent hfull => ?_, by rintro _ ⟨⟩⟩
    · rw [Cache.promote, Cache.remove_eq_self habsent]
    · exact absurd hfull (hfits habsent)
    · exact absurd hfull (hfits habsent)
  obtain ⟨habsent, hfull⟩ := not_or.1 hroom
  have hfull := Nat.le_of_not_lt hfull
  cases hvictim : use.cache.victim? frames pinned with
  | some victim =>
      have hleast := (Cache.victim?_eq_some_iff h.orders).1 hvictim
      rw [reply_of_victim habsent hfull hvictim]
      refine ⟨fun hmem => absurd hmem habsent, fun _ hlt => absurd hfull (Nat.not_le_of_lt hlt),
        fun _ _ other => ?_, fun other heq => ?_, fun _ _ => ?_, by rintro _ ⟨⟩⟩
      · rw [← Cache.victim?_eq_some_iff h.orders, hvictim]
        simp
      · obtain rfl : victim = other := by simpa using heq
        have hgone : page ∉ (use.cache.remove victim.1).pages := fun hmem =>
          habsent ((List.filter_sublist.map Prod.fst).subset hmem)
        rw [Cache.promote, Cache.remove_eq_self hgone,
          Cache.remove_entries_of_mem h.nodup hleast.spares.resident]
      · exact ⟨by rintro ⟨_, ⟨⟩, _⟩, fun hnone => absurd hleast.spares (hnone victim)⟩
  | none =>
      have hnone := Cache.victim?_eq_none_iff.1 hvictim
      rw [reply_of_none habsent hfull hvictim]
      refine ⟨fun hmem => absurd hmem habsent, fun _ hlt => absurd hfull (Nat.not_le_of_lt hlt),
        fun _ _ other => ?_, by rintro _ ⟨⟩, fun _ _ => ?_, fun _ _ => rfl⟩
      · exact ⟨by rintro ⟨⟩, fun hleast => absurd hleast.spares (hnone other)⟩
      · exact ⟨fun _ => hnone, fun _ => ⟨_, rfl, rfl⟩⟩

end CacheUse

/-- Through any sequence of calls a new cache lists exactly the resident pages, the latest used
first and never more than fit, and a put that needs room takes it from the least recently used page
that nothing keeps. -/
theorem exact_recency {capacity : Nat} {cache : Cache}
    (hcache : Cache.ofCapacity capacity = .ok cache) (calls : List CacheCall) :
    let use := CacheUse.run { cache, log := [] } calls
    use.Exact capacity ∧ ∀ frames pinned page ref,
      use.Puts frames pinned page ref ((CacheCall.put frames pinned page ref).reply use.cache) := by
  have hempty : cache = { capacity, entries := [] } := by
    unfold Cache.ofCapacity at hcache
    split at hcache
    · cases hcache
    · cases hcache
      rfl
  rw [hempty]
  have hexact := (CacheUse.exact_of_empty capacity).run calls
  exact ⟨hexact, hexact.puts⟩

/-- The object of the page that was put first, which somebody has dirtied, and that of another. -/
def CacheCall.dirtied : Frames :=
  (Frames.empty.alloc ((Page.load ⟨0, 0⟩ []).mark 1 true)).alloc (Page.load ⟨0, 1⟩ [])

/-- Two pages come in, and the first of them is used again. -/
def CacheCall.revisits : List CacheCall :=
  [.put dirtied (fun _ => false) ⟨0, 0⟩ 0, .put dirtied (fun _ => false) ⟨0, 1⟩ 1, .get ⟨0, 0⟩]

theorem exact_recency_revisited :
    Cache.ofCapacity 2 = .ok { capacity := 2, entries := [] } ∧
      (let use := CacheUse.run { cache := { capacity := 2, entries := [] }, log := [] }
        CacheCall.revisits
      use.cache.entries = [(⟨0, 0⟩, 0), (⟨0, 1⟩, 1)] ∧ use.Exact 2 ∧
        use.cache.LeastRecent use.log CacheCall.dirtied (fun _ => false) (⟨0, 1⟩, 1) ∧
        ∀ entry, ¬use.cache.Spares CacheCall.dirtied (fun page => page = ⟨0, 1⟩) entry) := by
  have h := exact_recency (show Cache.ofCapacity 2 = .ok _ from rfl) CacheCall.revisits
  have hfree := h.2 CacheCall.dirtied (fun _ => false) ⟨0, 2⟩ 2
  have hpinned := h.2 CacheCall.dirtied (fun page => page = ⟨0, 1⟩) ⟨0, 2⟩ 2
  exact ⟨rfl, by decide, h.1, (hfree.evicts (by decide) (by decide) _).1 (by decide),
    (hpinned.fails (by decide) (by decide)).1 ⟨.noVictim 2, by decide, rfl⟩⟩

end PagePool
