import PagePool.Frames

/-!
The page cache: at most a fixed number of pages, the least recently used of those that may leave
gives way to a new one.
-/

namespace PagePool

structure Cache where
  capacity : Nat
  /-- Resident pages, the most recently used first. -/
  entries : List (PageId × PageRef)
  deriving DecidableEq, Repr

/-- A page that a put has driven out. -/
abbrev Evicted := Option (PageId × PageRef)

namespace Cache

def ofCapacity (capacity : Nat) : Except Failure Cache :=
  if capacity = 0 then .error (.fault .zeroCapacity) else .ok { capacity, entries := [] }

def pages (cache : Cache) : List PageId :=
  cache.entries.map Prod.fst

/-- Looks a page up without using it. -/
def peek? (cache : Cache) (page : PageId) : Option PageRef :=
  (cache.entries.find? fun entry => entry.1 = page).map Prod.snd

def contains (cache : Cache) (page : PageId) : Bool :=
  (cache.peek? page).isSome

def remove (cache : Cache) (page : PageId) : Cache :=
  { cache with entries := cache.entries.filter fun entry => entry.1 ≠ page }

/-- The cache with a page in front. -/
def promote (cache : Cache) (page : PageId) (ref : PageRef) : Cache :=
  { cache with entries := (page, ref) :: (cache.remove page).entries }

/-- Looks a page up and makes it the most recently used one. -/
def get? (cache : Cache) (page : PageId) : Option PageRef × Cache :=
  match cache.peek? page with
  | some ref => (some ref, cache.promote page ref)
  | none => (none, cache)

theorem peek?_remove (cache : Cache) (removed page : PageId) :
    (cache.remove removed).peek? page = if page = removed then none else cache.peek? page := by
  simp only [peek?, remove, List.find?_filter]
  split
  · next h => simp [h]
  · next h =>
    congr 2
    funext entry
    grind

theorem peek?_promote (cache : Cache) (promoted page : PageId) (ref : PageRef) :
    (cache.promote promoted ref).peek? page =
      if page = promoted then some ref else cache.peek? page := by
  have removed := cache.peek?_remove promoted page
  simp only [peek?, promote, List.find?_cons] at removed ⊢
  by_cases same : page = promoted
  · simp [same]
  · simpa [same, Ne.symm same] using removed

def isFull (cache : Cache) : Bool :=
  cache.capacity ≤ cache.entries.length

/-- The least recently used page that is spare and not pinned. -/
def victim? (cache : Cache) (frames : Frames) (pinned : PageId → Bool) : Evicted :=
  cache.entries.reverse.find? fun entry => !pinned entry.1 && (frames.frame entry.2).isSpare

/-- Inserts a page, or replaces it, and makes it the most recently used one. A new page that does
not fit drives out a victim. -/
def put (cache : Cache) (frames : Frames) (pinned : PageId → Bool) (page : PageId)
    (ref : PageRef) : Except Error (Evicted × Cache) :=
  if cache.contains page || !cache.isFull then
    .ok (none, cache.promote page ref)
  else
    match cache.victim? frames pinned with
    | some victim => .ok (some victim, (cache.remove victim.1).promote page ref)
    | none => .error (.noVictim cache.entries.length)

end Cache

end PagePool
