import PagePool.Proofs.Pool.Completion

/-!
# Writes that fail

In an outage some writes to the volumes of a pool fail. A write that fails leaves storage as it was,
so a step that succeeds all the same does what it does without the outage: mended, the pool that it
leaves is the one that the step leaves in the mended pool.
-/

namespace PagePool

open LockRecord Standing Pool

section Weathers

variable {State Result Next : Type} {mend : State → State} {state : State} {fails : State → Prop}

/-- A step that succeeds does the same from the mended state; a step that fails leaves something
else behind. -/
def Weathers (mend : State → State) (step : EStateM Failure State Result) (state : State)
    (fails : State → Prop) : Prop :=
  Ends step state (fun result after => step (mend state) = .ok result (mend after)) fun _ => fails

theorem weathers_pure (result : Result) : Weathers mend (pure result) state fails := rfl

theorem weathers_get {step : State → EStateM Failure State Result} :
    Weathers mend (get >>= step) state fails ↔
      Ends (step state) state
        (fun result after => step (mend state) (mend state) = .ok result (mend after))
        fun _ => fails :=
  Iff.rfl

theorem Weathers.get {step : State → EStateM Failure State Result}
    (h : Weathers mend (step state) state fails) (hsame : step (mend state) = step state) :
    Weathers mend (get >>= step) state fails := by
  rw [weathers_get, hsame]
  exact h

theorem weathers_modify (change : State → State)
    (hsame : mend (change state) = change (mend state)) :
    Weathers mend (modify change) state fails := by
  have hmended : modify (m := EStateM Failure State) change (mend state) =
      .ok ⟨⟩ (change (mend state)) := rfl
  rw [Weathers, ends_modify, hmended, hsame]

theorem Weathers.bind {step : EStateM Failure State Result}
    {rest : Result → EStateM Failure State Next} (h : Weathers mend step state fails)
    (hrest : ∀ result after, step state = .ok result after →
      Weathers mend (rest result) after fails) :
    Weathers mend (step >>= rest) state fails := by
  unfold Weathers at h hrest ⊢
  cases hstep : step state with
  | error failure after =>
      have hfails := h.of_error hstep
      simp only [Ends, Bind.bind, EStateM.bind, hstep]
      exact hfails
  | ok result after =>
      have hmended := h.of_ok hstep
      have hnext := hrest result after hstep
      simp only [Ends, Bind.bind, EStateM.bind, hstep, hmended] at hnext ⊢
      exact hnext

/-- What is known of a step from the mended state holds of what it does. -/
theorem Weathers.ends {step : EStateM Failure State Result} {ok : Result → State → Prop}
    {fails' : Failure → State → Prop} (h : Weathers mend step state fails)
    (hmended : Ends step (mend state) ok fails') :
    Ends step state (fun result after => ok result (mend after)) fun _ => fails :=
  h.mono (fun _ _ hsame => hmended.of_ok hsame) fun _ _ hfails => hfails

end Weathers

namespace Volume

/-- From now on the writes fail that a plan says. -/
def strike (volume : Volume) (plan : Nat → Bool) : Volume :=
  { volume with writeFaults := { volume.writeFaults with fails := plan } }

/-- From now on no write fails. -/
def mend (volume : Volume) : Volume :=
  volume.strike fun _ => false

variable {volume : Volume}

theorem Reliable.mend {pageSize : Nat} (h : volume.Reliable pageSize) :
    volume.mend.Reliable pageSize where
  reads := h.reads
  writes _ := rfl
  length_eq := h.length_eq

/-- Nothing but the plan of the writes has moved on. -/
def Called (volume after : Volume) : Prop :=
  after.medium = volume.medium ∧ after.readFaults = volume.readFaults

theorem called_callWrite (volume : Volume) :
    Ends callWrite volume (fun _ => volume.Called) (fun _ => volume.Called) := by
  unfold callWrite
  rw [ends_bind, ends_get]
  dsimp only
  rw [ends_bind, ends_set]
  split
  · exact ⟨rfl, rfl⟩
  · exact ⟨rfl, rfl⟩

theorem weathers_callWrite (volume : Volume) :
    Weathers mend callWrite volume volume.Called := by
  rw [callWrite, weathers_get]
  dsimp only
  rw [ends_bind, ends_set]
  split
  · exact ⟨rfl, rfl⟩
  · rfl

/-- A write that fails has written nothing. -/
theorem weathers_writeAt (volume : Volume) (pageSize index : Nat) (data : Bytes) :
    Weathers mend (writeAt pageSize index data) volume volume.Called := by
  have hcall := weathers_callWrite volume
  refine Weathers.get ?_ rfl
  cases volume.medium with
  | file file =>
      dsimp only
      split
      · exact hcall.bind fun _ after _ => weathers_modify _ rfl
      · exact weathers_pure ()
  | memory pages =>
      refine hcall.bind fun _ after hcalled => ?_
      split
      · exact weathers_modify _ rfl
      · exact (called_callWrite volume).of_ok hcalled

end Volume

namespace Pool

/-- An outage: from now on the writes fail that it says for each volume. -/
def strike (pool : Pool) (outage : VolumeRef → Nat → Bool) : Pool :=
  { pool with volumes := pool.volumes.mapIdx fun ref volume => volume.strike (outage ref) }

def mend (pool : Pool) : Pool :=
  { pool with volumes := pool.volumes.map Volume.mend }

variable {pool before after : Pool} {id : PageId} {ref : PageRef} {tx : TxId}

@[simp]
theorem mend_strike (pool : Pool) (outage : VolumeRef → Nat → Bool) :
    (pool.strike outage).mend = pool.mend := by
  have hvolumes : (pool.strike outage).volumes.map Volume.mend = pool.volumes.map Volume.mend :=
    List.ext_getElem (by simp [strike]) (by simp [strike, Volume.mend, Volume.strike])
  unfold mend
  rw [hvolumes]
  rfl

theorem volume_mend (pool : Pool) (ref : VolumeRef) :
    pool.mend.volume ref = (pool.volume ref).mend := by
  simp only [Pool.volume, mend, List.getD_eq_getElem?_getD, List.getElem?_map]
  cases pool.volumes[ref]? with
  | none => rfl
  | some volume => rfl

theorem mend_setVolume (pool : Pool) (ref : VolumeRef) (volume : Volume) :
    (pool.setVolume ref volume).mend = pool.mend.setVolume ref volume.mend := by
  simp only [setVolume, mend, List.map_set]

theorem stored?_mend (pool : Pool) (id : PageId) : pool.mend.stored? id = pool.stored? id := by
  simp only [stored?, volume_mend]
  rfl

@[simp]
theorem standing_mend (pool : Pool) (id : PageId) : pool.mend.standing id = pool.standing id := by
  rw [standing, stored?_mend]
  rfl

theorem Sound.mend (h : pool.Sound) : pool.mend.Sound where
  nodup := h.nodup
  inside := h.inside
  named := h.named
  backed htable := by
    rw [Pool.mend, List.length_map]
    exact h.backed htable
  reliable htable := by
    rw [volume_mend]
    exact (h.reliable htable).mend
  apart := h.apart

theorem Coherent.mend (h : pool.Coherent) : pool.mend.Coherent where
  toSound := h.toSound.mend
  coherent id := by
    rw [standing_mend]
    exact h.coherent id

/-- Nothing that can be told from the pages has changed. -/
theorem settles_nil_of_volume {ending : Ending} {table : Table} {volume : Volume}
    (hsound : pool.Sound) (htable : pool.table? id.table = some table)
    (hmedium : volume.medium = (pool.volume table.volume).medium)
    (hvolume : volume.Reliable pool.pageSize) :
    pool.Settles ending [] (pool.setVolume table.volume volume) where
  sound := hsound.setVolume htable hvolume
  pageSize_eq := rfl
  tables_eq := rfl
  locks_eq := rfl
  next_eq := rfl
  standing_eq other := by
    have hstored : (pool.setVolume table.volume volume).stored? other = pool.stored? other := by
      rw [stored?_setVolume hsound htable]
      split
      · next h =>
        rw [Volume.stored?_congr hmedium, stored?, h, htable]
        rfl
      · rfl
    rw [if_neg List.not_mem_nil]
    change Standing.mk _ ((pool.setVolume table.volume volume).stored? other) _ = _
    rw [hstored]
    rfl
  page_eq _ _ := rfl

end Pool

section Steps

variable {pool : Pool} {id : PageId} {ref : PageRef} {tx : TxId} {ending : Ending}
  {fails : Pool → Prop}

theorem weathers_getTable (number : UInt32) (hfails : fails pool) :
    Weathers mend (getTable number) pool fails := by
  refine Weathers.get ?_ rfl
  cases pool.table? number with
  | none => exact hfails
  | some table => exact weathers_pure table

/-- A write that succeeds in an outage does what it does without it, and one that fails does
nothing. -/
theorem weathers_writeStored (hsound : pool.mend.Sound) {table : Table}
    (htable : pool.table? id.table = some table) (page : Page) :
    Weathers mend (writeStored table page) pool fun after =>
      pool.mend.Settles ending [] after.mend := by
  have hwrite := Volume.weathers_writeAt (pool.volume table.volume) pool.pageSize
    page.id.index.toNat page.data
  rw [Weathers, writeStored, ends_bind, ends_get, ends_onVolume]
  refine hwrite.mono (fun _ volume hsame => ?_) fun _ volume hfailed => ?_
  · change onVolume table.volume (Volume.writePage pool.pageSize page) pool.mend = _
    simp only [onVolume, volume_mend, Volume.writePage, hsame, mend_setVolume]
  · have htable' : pool.mend.table? id.table = some table := htable
    have hreliable := hsound.reliable htable'
    rw [volume_mend] at hreliable
    rw [mend_setVolume]
    refine settles_nil_of_volume hsound htable' ?_ ?_
    · rw [volume_mend]
      exact hfailed.1
    · exact hreliable.of_medium hfailed.1 (congrArg Faults.fails hfailed.2) rfl

theorem settles_nil (hsound : pool.Sound) : pool.Settles ending [] pool where
  sound := hsound
  pageSize_eq := rfl
  tables_eq := rfl
  locks_eq := rfl
  next_eq := rfl
  standing_eq _ := (if_neg List.not_mem_nil).symm
  page_eq _ _ := rfl

theorem weathers_flushPage (hsound : pool.mend.Sound) (id : PageId) :
    Weathers mend (flushPage id) pool fun after => pool.mend.Settles ending [] after.mend := by
  refine Weathers.get ?_ rfl
  dsimp only
  split
  · exact weathers_pure ()
  · split
    · refine (weathers_getTable id.table ?_).bind fun table _ hfound => ?_
      · exact settles_nil hsound
      · obtain ⟨rfl, htable⟩ := (ends_getTable id.table pool).of_ok hfound
        exact (weathers_writeStored hsound htable _).bind fun _ after _ => weathers_modify _ rfl
    · exact weathers_pure ()

theorem weathers_commitPage (hsound : pool.mend.Sound) (id : PageId) :
    Weathers mend (commitPage id) pool fun after => pool.mend.Settles .commit [] after.mend := by
  refine (weathers_flushPage hsound id).bind fun _ after _ => weathers_get.2 ?_
  have hsame : after.mend.cache.peek? id = after.cache.peek? id := rfl
  rw [hsame]
  cases after.cache.peek? id with
  | none => exact weathers_pure ()
  | some ref => rfl

/-- A page is torn if its image is back in the cache but could not be written to storage. -/
def Tears (id : PageId) (pool after : Pool) : Prop :=
  ∃ ref restored, pool.cache.peek? id = some ref ∧ (pool.page ref).restored? = some restored ∧
    (pool.page ref).stolen = true ∧ (pool.setPage ref restored).Settles .abort [] after

theorem weathers_rollbackPage (hsound : pool.mend.Sound) (id : PageId) :
    Weathers mend (rollbackPage tx id) pool fun after => Tears id pool.mend after.mend := by
  rw [rollbackPage, weathers_get]
  have hsame : pool.mend.cache.peek? id = pool.cache.peek? id := rfl
  rw [hsame]
  cases hpeek : pool.cache.peek? id with
  | none => exact weathers_pure ()
  | some ref =>
      have hpage : pool.mend.page ref = pool.page ref := rfl
      dsimp only
      rw [hpage]
      split
      · exact weathers_pure ()
      · cases hrestored : (pool.page ref).restored? with
        | none =>
            dsimp only
            split
            · exact weathers_modify _ rfl
            · exact weathers_pure ()
        | some restored =>
            -- from here on the object has its image back
            refine ends_bind.2 ?_
            have hid : restored.id = id := by
              obtain ⟨image, _, rfl⟩ := Option.map_eq_some_iff.1 hrestored
              exact hsound.named hpeek
            have hrestored' : (pool.setPage ref restored).mend.Sound :=
              hsound.setPage hpeek hid
            have hclear : Weathers mend
                (modify fun pool => pool.setPage ref (pool.page ref).clearBeforeImage)
                (pool.setPage ref restored) fun after => Tears id pool.mend after.mend :=
              weathers_modify _ rfl
            change Weathers mend _ (pool.setPage ref restored) _
            split
            · next hstolen =>
              have hfails : ∀ {after}, (pool.setPage ref restored).mend.Settles .abort [] after →
                  Tears id pool.mend after :=
                fun hsettles => ⟨ref, restored, hpeek, hrestored, hstolen, hsettles⟩
              refine (weathers_getTable id.table ?_).bind fun table _ hfound => ?_
              · exact hfails (settles_nil hrestored')
              · obtain ⟨rfl, htable⟩ := (ends_getTable id.table _).of_ok hfound
                refine Weathers.bind ?_ fun _ after _ => weathers_modify _ rfl
                exact (weathers_writeStored hrestored' htable restored).mono (fun _ _ h => h)
                  fun _ _ => hfails
            · exact hclear

end Steps

end PagePool
