import Mathlib.Data.List.Nodup
import PagePool.Cache

/-!
# What the cache holds after a put

A cache lists every page at most once. A put brings one page in and drives at most one other page
out, which nobody has pinned and whose object is spare.
-/

namespace PagePool

namespace Cache

variable {cache after : Cache} {page other : PageId} {ref : PageRef}

theorem peek?_of_mem (hnodup : cache.pages.Nodup) (hmem : (page, ref) ∈ cache.entries) :
    cache.peek? page = some ref := by
  obtain ⟨capacity, entries⟩ := cache
  simp only [peek?, pages] at hnodup hmem ⊢
  induction entries with
  | nil => cases hmem
  | cons head rest ih =>
      rw [List.map_cons, List.nodup_cons] at hnodup
      rcases List.mem_cons.1 hmem with rfl | hmem
      · simp
      · have hne : head.1 ≠ page := by
          rintro rfl
          exact hnodup.1 (List.mem_map.2 ⟨_, hmem, rfl⟩)
        rw [List.find?_cons_of_neg (by simpa using hne)]
        exact ih hnodup.2 hmem

theorem peek?_eq_some_iff (hnodup : cache.pages.Nodup) :
    cache.peek? page = some ref ↔ (page, ref) ∈ cache.entries := by
  constructor
  · intro h
    obtain ⟨entry, hfound, heq⟩ := Option.map_eq_some_iff.1 h
    have hpage : entry.1 = page := by simpa using List.find?_some hfound
    rw [← hpage, ← heq]
    exact List.mem_of_find?_eq_some hfound
  · exact peek?_of_mem hnodup

theorem contains_iff : cache.contains page = true ↔ page ∈ cache.pages := by
  simp [contains, peek?, pages]

theorem mem_remove {entry : PageId × PageRef} :
    entry ∈ (cache.remove page).entries ↔ entry ∈ cache.entries ∧ entry.1 ≠ page := by
  simp [remove]

theorem mem_promote {entry : PageId × PageRef} :
    entry ∈ (cache.promote page ref).entries ↔
      entry = (page, ref) ∨ entry ∈ cache.entries ∧ entry.1 ≠ page := by
  rw [promote, List.mem_cons, mem_remove]

theorem remove_eq_self (h : page ∉ cache.pages) : cache.remove page = cache := by
  obtain ⟨capacity, entries⟩ := cache
  simp only [remove, Cache.mk.injEq, true_and]
  apply List.filter_eq_self.2
  intro entry hmem
  have hne : entry.1 ≠ page := fun heq => h (heq ▸ List.mem_map_of_mem hmem)
  simpa using hne

theorem promote_promote (cache : Cache) (page : PageId) (ref other : PageRef) :
    (cache.promote page ref).promote page other = cache.promote page other := by
  simp [promote, remove]

theorem length_remove_lt (h : page ∈ cache.pages) :
    (cache.remove page).entries.length < cache.entries.length := by
  obtain ⟨entry, hmem, heq⟩ := List.mem_map.1 h
  exact List.length_filter_lt_length_iff_exists.2 ⟨entry, hmem, by simpa using heq⟩

theorem length_promote_le (cache : Cache) (page : PageId) (ref : PageRef) :
    (cache.promote page ref).entries.length ≤ cache.entries.length + 1 :=
  Nat.succ_le_succ (List.length_filter_le _ _)

theorem nodup_remove (hnodup : cache.pages.Nodup) (removed : PageId) :
    (cache.remove removed).pages.Nodup :=
  hnodup.sublist (List.filter_sublist.map _)

theorem nodup_promote (hnodup : cache.pages.Nodup) (promoted : PageId) (ref : PageRef) :
    (cache.promote promoted ref).pages.Nodup := by
  refine List.nodup_cons.2 ⟨?_, nodup_remove hnodup promoted⟩
  simp [remove]

/-- The pages and their objects are the same, whatever the order in which they were used. -/
def SamePages (cache after : Cache) : Prop :=
  ∀ page, after.peek? page = cache.peek? page

theorem samePages_promote (h : cache.peek? page = some ref) :
    cache.SamePages (cache.promote page ref) := by
  intro other
  rw [peek?_promote]
  split
  · next hsame => rw [hsame, h]
  · rfl

theorem get?_resident (h : cache.peek? page = some ref) :
    cache.get? page = (some ref, cache.promote page ref) := by
  simp only [get?, h]

theorem get?_absent (h : cache.peek? page = none) : cache.get? page = (none, cache) := by
  simp only [get?, h]

theorem get?_spec (hnodup : cache.pages.Nodup) (page : PageId) :
    (cache.get? page).1 = cache.peek? page ∧ cache.SamePages (cache.get? page).2 ∧
      (cache.get? page).2.pages.Nodup := by
  unfold get?
  cases hpeek : cache.peek? page with
  | none => exact ⟨rfl, fun _ => rfl, hnodup⟩
  | some ref => exact ⟨rfl, samePages_promote hpeek, nodup_promote hnodup page ref⟩

theorem victim?_eq_some {frames : Frames} {pinned : PageId → Bool} {victim : PageId × PageRef}
    (hnodup : cache.pages.Nodup) (h : cache.victim? frames pinned = some victim) :
    cache.peek? victim.1 = some victim.2 ∧ pinned victim.1 = false ∧
      (frames.frame victim.2).isSpare = true := by
  have hmem : victim ∈ cache.entries := List.mem_reverse.1 (List.mem_of_find?_eq_some h)
  have hspare := List.find?_some h
  rw [Bool.and_eq_true, Bool.not_eq_true'] at hspare
  exact ⟨peek?_of_mem hnodup hmem, hspare⟩

theorem put_resident {frames : Frames} {pinned : PageId → Bool}
    (h : cache.peek? page = some ref) :
    cache.put frames pinned page ref = .ok (none, cache.promote page ref) := by
  simp [put, contains, h]

theorem put_of_room {frames : Frames} {pinned : PageId → Bool}
    (h : page ∈ cache.pages ∨ cache.entries.length < cache.capacity) :
    cache.put frames pinned page ref = .ok (none, cache.promote page ref) := by
  unfold put
  rw [if_pos]
  rcases h with hmem | hlt
  · simp [contains_iff.2 hmem]
  · simp [isFull, hlt]

theorem put_of_full {frames : Frames} {pinned : PageId → Bool} (habsent : page ∉ cache.pages)
    (hfull : cache.capacity ≤ cache.entries.length) :
    cache.put frames pinned page ref =
      match cache.victim? frames pinned with
      | some victim => .ok (some victim, (cache.remove victim.1).promote page ref)
      | none => .error (.noVictim cache.entries.length) := by
  have hnot : cache.contains page = false :=
    Bool.eq_false_iff.2 fun hcontains => habsent (contains_iff.1 hcontains)
  unfold put
  exact if_neg (by simp [hnot, isFull, hfull])

/-- A put can only fail for want of a page that may leave. -/
theorem eq_noVictim_of_put {frames : Frames} {pinned : PageId → Bool} {error : Error}
    (h : cache.put frames pinned page ref = .error error) :
    error = .noVictim cache.entries.length := by
  unfold put at h
  split at h
  · cases h
  · split at h
    · cases h
    · cases h
      rfl

theorem promote_of_put {frames : Frames} {pinned : PageId → Bool} {evicted : Evicted}
    (h : cache.put frames pinned page ref = .ok (evicted, after)) :
    after.promote page ref = after := by
  unfold put at h
  split at h
  · cases h
    exact promote_promote ..
  · split at h
    · cases h
      exact promote_promote ..
    · cases h

theorem capacity_of_put {frames : Frames} {pinned : PageId → Bool} {evicted : Evicted}
    (h : cache.put frames pinned page ref = .ok (evicted, after)) :
    after.capacity = cache.capacity := by
  rw [← promote_of_put h]
  unfold put at h
  split at h
  · cases h
    rfl
  · split at h
    · cases h
      rfl
    · cases h

/-- No more pages are there than the cache has places for. -/
def Fits (cache : Cache) : Prop :=
  cache.entries.length ≤ cache.capacity

theorem Fits.promote (hfits : cache.Fits) (h : cache.peek? page = some ref) :
    (cache.promote page ref).Fits := by
  have hmem : page ∈ cache.pages := contains_iff.1 (by rw [contains, h]; rfl)
  exact Nat.le_trans (length_remove_lt hmem) hfits

theorem Fits.put {frames : Frames} {pinned : PageId → Bool} {evicted : Evicted}
    (hfits : cache.Fits) (habsent : page ∉ cache.pages)
    (h : cache.put frames pinned page ref = .ok (evicted, after)) : after.Fits := by
  by_cases hroom : cache.entries.length < cache.capacity
  · rw [put_of_room (.inr hroom)] at h
    cases h
    exact Nat.le_trans (length_promote_le cache page ref) hroom
  rw [put_of_full habsent (Nat.le_of_not_lt hroom)] at h
  cases hvictim : cache.victim? frames pinned with
  | none =>
      rw [hvictim] at h
      cases h
  | some victim =>
      rw [hvictim] at h
      cases h
      have hmem : victim ∈ cache.entries := List.mem_reverse.1 (List.mem_of_find?_eq_some hvictim)
      have hgone := length_remove_lt (List.mem_map_of_mem hmem)
      exact Nat.le_trans (length_promote_le (cache.remove victim.1) page ref)
        (Nat.le_trans hgone hfits)

/-- A cache with one place has one page. -/
theorem Fits.eq_none (hfits : cache.Fits) (hplaces : cache.capacity = 1)
    (hpeek : (cache.peek? page).isSome) {other : PageId} (hne : other ≠ page) :
    cache.peek? other = none := by
  rw [Fits, hplaces] at hfits
  rcases hentries : cache.entries with _ | ⟨entry, _ | ⟨next, rest⟩⟩
  · simp [peek?, hentries]
  · have hentry : entry.1 = page := by simpa [peek?, hentries] using hpeek
    simp [peek?, hentries, hentry, Ne.symm hne]
  · rw [hentries] at hfits
    exact absurd (Nat.le_of_succ_le_succ hfits) (Nat.not_succ_le_zero _)

/-- A put of a page that is not there drives out one page at most. -/
theorem put_absent {frames : Frames} {pinned : PageId → Bool} {evicted : Evicted}
    (hnodup : cache.pages.Nodup) (habsent : cache.peek? page = none)
    (h : cache.put frames pinned page ref = .ok (evicted, after)) :
    after = cache.promote page ref ∨
      ∃ victim object, cache.peek? victim = some object ∧ pinned victim = false ∧
        (frames.frame object).isSpare = true ∧ victim ≠ page ∧
        after = (cache.remove victim).promote page ref := by
  unfold put at h
  split at h
  · cases h
    exact .inl rfl
  · cases hvictim : cache.victim? frames pinned with
    | none =>
        rw [hvictim] at h
        cases h
    | some victim =>
        rw [hvictim] at h
        cases h
        obtain ⟨hpeek, hfree, hspare⟩ := victim?_eq_some hnodup hvictim
        refine .inr ⟨victim.1, victim.2, hpeek, hfree, hspare, ?_, rfl⟩
        rintro rfl
        rw [habsent] at hpeek
        cases hpeek

end Cache

end PagePool
