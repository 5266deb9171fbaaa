/-!
Maps from keys to lists of values. A key without values is not kept, so the keys of a map are
exactly those under which something is filed. Main statements: what each operation does to the
values of every key.
-/

namespace PagePool

structure Multimap (Key Value : Type) where
  entries : List (Key × List Value)
  nodup_keys : (entries.map Prod.fst).Nodup
  values_ne_nil : ∀ entry ∈ entries, entry.2 ≠ []

namespace Multimap

variable {Key Value : Type}

def empty : Multimap Key Value where
  entries := []
  nodup_keys := .nil
  values_ne_nil := by simp

def keys (map : Multimap Key Value) : List Key :=
  map.entries.map Prod.fst

def values [DecidableEq Key] (map : Multimap Key Value) (key : Key) : List Value :=
  ((map.entries.find? fun entry => entry.1 = key).map Prod.snd).getD []

/-- Without a key and all that is filed under it. -/
def erase [DecidableEq Key] (map : Multimap Key Value) (key : Key) : Multimap Key Value where
  entries := map.entries.filter fun entry => entry.1 ≠ key
  nodup_keys := map.nodup_keys.sublist (List.filter_sublist.map Prod.fst)
  values_ne_nil entry member := map.values_ne_nil entry (List.mem_filter.1 member).1

theorem not_mem_keys_erase [DecidableEq Key] (map : Multimap Key Value) (key : Key) :
    key ∉ (map.erase key).keys := by
  simp [keys, erase]

theorem erase_eq_of_not_mem [DecidableEq Key] {map : Multimap Key Value} {key : Key}
    (absent : key ∉ map.keys) : map.erase key = map := by
  obtain ⟨entries, _, _⟩ := map
  simp only [erase, mk.injEq, List.filter_eq_self, decide_eq_true_eq]
  rintro entry member rfl
  exact absent (List.mem_map.2 ⟨entry, member, rfl⟩)

/-- Files a list of values under a key in place of all that was there. -/
def put [DecidableEq Key] (map : Multimap Key Value) (key : Key) (list : List Value) :
    Multimap Key Value :=
  if filled : list = [] then map.erase key
  else
    { entries := (key, list) :: (map.erase key).entries
      nodup_keys := List.nodup_cons.2 ⟨map.not_mem_keys_erase key, (map.erase key).nodup_keys⟩
      values_ne_nil := by
        intro entry member
        rcases List.mem_cons.1 member with rfl | member
        · exact filled
        · exact (map.erase key).values_ne_nil entry member }

theorem erase_put [DecidableEq Key] (map : Multimap Key Value) (key : Key) (list : List Value) :
    (map.put key list).erase key = map.erase key := by
  unfold put
  split
  · exact erase_eq_of_not_mem (map.not_mem_keys_erase key)
  · simp [erase, List.filter_filter]

def filterEntry (keep : Key → Value → Bool) (entry : Key × List Value) :
    Option (Key × List Value) :=
  let kept := entry.2.filter (keep entry.1)
  if kept = [] then none else some (entry.1, kept)

theorem filterEntry_eq_some_iff {keep : Key → Value → Bool} {entry kept : Key × List Value} :
    filterEntry keep entry = some kept ↔
      kept.1 = entry.1 ∧ kept.2 = entry.2.filter (keep entry.1) ∧ kept.2 ≠ [] := by
  obtain ⟨key, list⟩ := kept
  grind [filterEntry]

theorem keys_filterMap_sublist (keep : Key → Value → Bool) (entries : List (Key × List Value)) :
    ((entries.filterMap (filterEntry keep)).map Prod.fst).Sublist (entries.map Prod.fst) := by
  induction entries with
  | nil => simp
  | cons entry rest ih =>
      cases h : filterEntry keep entry with
      | none => simpa [List.filterMap_cons, h] using ih.cons _
      | some kept =>
          simpa [List.filterMap_cons, h, (filterEntry_eq_some_iff.1 h).1] using ih

/-- Keeps the values that pass a test; a key that loses its last value goes as well. -/
def filter (map : Multimap Key Value) (keep : Key → Value → Bool) : Multimap Key Value where
  entries := map.entries.filterMap (filterEntry keep)
  nodup_keys := map.nodup_keys.sublist (keys_filterMap_sublist keep map.entries)
  values_ne_nil := by
    intro entry member
    obtain ⟨source, _, h⟩ := List.mem_filterMap.1 member
    exact (filterEntry_eq_some_iff.1 h).2.2

section Values

variable [DecidableEq Key] (map : Multimap Key Value)

theorem values_eq_of_mem {entry : Key × List Value} (member : entry ∈ map.entries) :
    map.values entry.1 = entry.2 := by
  obtain ⟨entries, nodup, _⟩ := map
  simp only [values] at member ⊢
  induction entries with
  | nil => simp at member
  | cons head rest ih => grind

theorem values_eq_nil_iff {key : Key} : map.values key = [] ↔ key ∉ map.keys := by
  constructor
  · intro h member
    obtain ⟨entry, filed, rfl⟩ := List.mem_map.1 member
    exact map.values_ne_nil entry filed (map.values_eq_of_mem filed ▸ h)
  · intro h
    have none : (map.entries.find? fun entry => entry.1 = key) = none := by
      grind [keys]
    simp [values, none]

theorem mem_entries_of_mem_keys {key : Key} (member : key ∈ map.keys) :
    (key, map.values key) ∈ map.entries := by
  obtain ⟨entry, filed, rfl⟩ := List.mem_map.1 member
  rwa [map.values_eq_of_mem filed]

@[simp]
theorem values_empty (key : Key) : (empty : Multimap Key Value).values key = [] := rfl

theorem values_erase (key other : Key) :
    (map.erase key).values other = if other = key then [] else map.values other := by
  split
  · subst other
    exact (values_eq_nil_iff _).2 (map.not_mem_keys_erase key)
  · next h =>
    obtain ⟨entries, nodup, _⟩ := map
    simp only [values, erase]
    induction entries with
    | nil => rfl
    | cons head rest ih => grind

theorem values_put (key other : Key) (list : List Value) :
    (map.put key list).values other = if other = key then list else map.values other := by
  unfold put
  split
  · next h => simp [values_erase, h]
  · have := map.values_erase key other
    grind [values]

theorem values_filter (keep : Key → Value → Bool) (key : Key) :
    (map.filter keep).values key = (map.values key).filter (keep key) := by
  by_cases member : key ∈ (map.filter keep).keys
  · have kept := mem_entries_of_mem_keys _ member
    obtain ⟨source, sourceMember, h⟩ := List.mem_filterMap.1 kept
    obtain ⟨rfl, h, _⟩ := filterEntry_eq_some_iff.1 h
    rw [map.values_eq_of_mem sourceMember]
    exact h
  · rw [(values_eq_nil_iff _).2 member]
    by_cases source : key ∈ map.keys
    · have entry := map.mem_entries_of_mem_keys source
      refine Eq.symm (Classical.byContradiction fun filled => member ?_)
      exact List.mem_map.2 ⟨(key, (map.values key).filter (keep key)),
        List.mem_filterMap.2 ⟨_, entry, filterEntry_eq_some_iff.2 ⟨rfl, rfl, filled⟩⟩, rfl⟩
    · rw [(values_eq_nil_iff _).2 source, List.filter_nil]

end Values

end Multimap

end PagePool
