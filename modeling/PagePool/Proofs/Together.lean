import PagePool.Proofs.Page

/-!
# Two steps side by side

`Together excused step state step' state' ok fails` says of two steps from two states: if both give
a value then `ok` holds of the values and of the states that they leave; if both fail then they fail
alike, and `fails` holds of what they have changed before. Only for failures that are excused one
step may fail and the other one not, or differ in how it fails.
-/

namespace PagePool

variable {State State' Result Result' Next Next' : Type}

def Together (excused : Failure → Prop) (step : EStateM Failure State Result) (state : State)
    (step' : EStateM Failure State' Result') (state' : State')
    (ok : Result → State → Result' → State' → Prop) (fails : State → State' → Prop) : Prop :=
  match step state, step' state' with
  | .ok result after, .ok result' after' => ok result after result' after'
  | .error failure after, .error failure' after' =>
      (failure' = failure ∧ fails after after') ∨ excused failure ∨ excused failure'
  | .error failure _, .ok .. => excused failure
  | .ok .., .error failure _ => excused failure

section Rules

variable {excused : Failure → Prop} {state : State} {state' : State'}
  {ok : Result → State → Result' → State' → Prop}
  {next : Next → State → Next' → State' → Prop} {fails : State → State' → Prop}

theorem together_throw {failure : Failure} (h : fails state state') :
    Together excused (throw failure) state (throw failure) state' ok fails :=
  .inl ⟨rfl, h⟩

@[simp]
theorem together_get {rest : State → EStateM Failure State Result}
    {rest' : State' → EStateM Failure State' Result'} :
    Together excused (get >>= rest) state (get >>= rest') state' ok fails ↔
      Together excused (rest state) state (rest' state') state' ok fails := Iff.rfl

@[simp]
theorem together_modify {rest : PUnit → EStateM Failure State Result}
    {rest' : PUnit → EStateM Failure State' Result'} (change : State → State)
    (change' : State' → State') :
    Together excused (modify change >>= rest) state (modify change' >>= rest') state' ok fails ↔
      Together excused (rest ⟨⟩) (change state) (rest' ⟨⟩) (change' state') ok fails := Iff.rfl

theorem together_lift {Value : Type} {result : Except Failure Value}
    {rest : Value → EStateM Failure State Result} {rest' : Value → EStateM Failure State' Result'}
    (hrest : ∀ value, result = .ok value →
      Together excused (rest value) state (rest' value) state' ok fails)
    (hfails : fails state state') :
    Together excused (lift result >>= rest) state (lift result >>= rest') state' ok fails := by
  cases result with
  | ok value => exact hrest value rfl
  | error failure => exact .inl ⟨rfl, hfails⟩

variable {step : EStateM Failure State Result} {step' : EStateM Failure State' Result'}
  {ok' : Result → State → Result' → State' → Prop} {fails' : State → State' → Prop}

theorem Together.mono (h : Together excused step state step' state' ok fails)
    (hok : ∀ result after result' after', ok result after result' after' →
      ok' result after result' after')
    (hfails : ∀ after after', fails after after' → fails' after after') :
    Together excused step state step' state' ok' fails' := by
  unfold Together at h ⊢
  cases hstep : step state <;> cases hstep' : step' state' <;> rw [hstep, hstep'] at h
  · exact hok _ _ _ _ h
  · exact h
  · exact h
  · exact h.imp_left fun hboth => ⟨hboth.1, hfails _ _ hboth.2⟩

theorem Together.bind {rest : Result → EStateM Failure State Next}
    {rest' : Result' → EStateM Failure State' Next'}
    (h : Together excused step state step' state' ok fails)
    (hrest : ∀ result after result' after', ok result after result' after' →
      Together excused (rest result) after (rest' result') after' next fails) :
    Together excused (step >>= rest) state (step' >>= rest') state' next fails := by
  unfold Together at h ⊢
  simp only [EStateM.bind, Bind.bind]
  cases hstep : step state with
  | ok result after =>
      cases hstep' : step' state' with
      | ok result' after' =>
          rw [hstep, hstep'] at h
          exact hrest result after result' after' h
      | error failure' after' =>
          rw [hstep, hstep'] at h
          dsimp only
          cases rest result after with
          | ok => exact h
          | error => exact .inr (.inr h)
  | error failure after =>
      cases hstep' : step' state' with
      | ok result' after' =>
          rw [hstep, hstep'] at h
          dsimp only
          cases rest' result' after' with
          | ok => exact h
          | error => exact .inr (.inl h)
      | error failure' after' =>
          rw [hstep, hstep'] at h
          exact h

/-- Both steps are known by themselves, and what is known tells them to end alike. -/
theorem Together.of_ends {left : Result → State → Prop} {right : Result' → State' → Prop}
    {leftFails : Failure → State → Prop} {rightFails : Failure → State' → Prop}
    (h : Ends step state left leftFails) (h' : Ends step' state' right rightFails)
    (hok : ∀ result after result' after', left result after → right result' after' →
      ok result after result' after')
    (hfails : ∀ failure after failure' after', leftFails failure after →
      rightFails failure' after' →
      (failure' = failure ∧ fails after after') ∨ excused failure ∨ excused failure')
    (hleft : ∀ failure after result' after', leftFails failure after → right result' after' →
      excused failure)
    (hright : ∀ result after failure' after', left result after → rightFails failure' after' →
      excused failure') :
    Together excused step state step' state' ok fails := by
  unfold Ends at h h'
  unfold Together
  cases hstep : step state <;> cases hstep' : step' state' <;> rw [hstep] at h <;>
    rw [hstep'] at h'
  · exact hok _ _ _ _ h h'
  · exact hright _ _ _ _ h h'
  · exact hleft _ _ _ _ h h'
  · exact hfails _ _ _ _ h h'

/-- What is known of each step by itself may be used for both. -/
theorem Together.and_ends {left : Result → State → Prop} {right : Result' → State' → Prop}
    {leftFails : Failure → State → Prop} {rightFails : Failure → State' → Prop}
    (h : Together excused step state step' state' ok fails)
    (hleft : Ends step state left leftFails) (hright : Ends step' state' right rightFails)
    (hok : ∀ result after result' after', ok result after result' after' → left result after →
      right result' after' → ok' result after result' after')
    (hfails : ∀ failure after failure' after', fails after after' → leftFails failure after →
      rightFails failure' after' → fails' after after') :
    Together excused step state step' state' ok' fails' := by
  unfold Ends at hleft hright
  unfold Together at h ⊢
  cases hstep : step state <;> cases hstep' : step' state' <;> rw [hstep] at hleft <;>
    rw [hstep'] at hright <;> rw [hstep, hstep'] at h
  · exact hok _ _ _ _ h hleft hright
  · exact h
  · exact h
  · exact h.imp_left fun hboth => ⟨hboth.1, hfails _ _ _ _ hboth.2 hleft hright⟩

end Rules

namespace Page

/-- A writer has put the same bytes on both pages. -/
def BothRewritten (tx : TxId) (page page' after after' : Page) : Prop :=
  ∃ data, data.length = page.data.length ∧ after = (page.touch tx).withData data ∧
    after' = (page'.touch tx).withData data

/-- Both pages have been left alone, or a writer has put the same bytes on both. -/
def BothLeft (tx : TxId) (page page' after after' : Page) : Prop :=
  (after = page ∧ after' = page') ∨ BothRewritten tx page page' after after'

variable {excused : Failure → Prop} {tx : TxId} {page page' middle middle' after after' : Page}

theorem BothRewritten.trans (h : BothRewritten tx page page' middle middle')
    (h' : BothRewritten tx middle middle' after after') :
    BothRewritten tx page page' after after' := by
  obtain ⟨first, hfirst, rfl, rfl⟩ := h
  obtain ⟨second, hsecond, rfl, rfl⟩ := h'
  exact ⟨second, hsecond.trans hfirst, rfl, rfl⟩

theorem together_write (hdata : page'.data = page.data) (tx : TxId) (offset : Nat) (chunk : Bytes) :
    Together excused (write tx offset chunk) page (write tx offset chunk) page'
      (fun _ after _ after' => BothRewritten tx page page' after after')
      (BothRewritten tx page page') := by
  have htouched : BothRewritten tx page page' (page.touch tx) (page'.touch tx) :=
    ⟨page.data, rfl, rfl, hdata ▸ rfl⟩
  have hsame : (page'.touch tx).data = (page.touch tx).data := hdata
  unfold write
  rw [together_modify, together_get, hsame]
  exact together_lift (fun data hspliced => ⟨data, Bytes.length_splice hspliced, rfl, rfl⟩) htouched

end Page

namespace Layout

variable {excused : Failure → Prop} {layout : Layout} {page page' : Page} (hid : page'.id = page.id)
  (hdata : page'.data = page.data)
include hdata

theorem occupancy_eq_of_data : layout.occupancy page' = layout.occupancy page := by
  simp only [occupancy, hdata]

theorem freeSlots_eq_of_data : layout.freeSlots page' = layout.freeSlots page := by
  simp only [freeSlots, occupancy_eq_of_data hdata]

theorem together_setHeader (tx : TxId) (slot : Nat) (used : Bool) :
    Together excused (setHeader tx slot used) page (setHeader tx slot used) page'
      (fun _ after _ after' => Page.BothRewritten tx page page' after after')
      fun _ _ => False := by
  have hsame : (page'.touch tx).data = (page.touch tx).data := hdata
  refine ⟨page.data.setBit slot used, Bytes.length_setBit .., rfl, ?_⟩
  rw [← hdata]
  rfl

include hid

theorem tuples_eq_of_data : layout.tuples page' = layout.tuples page := by
  have htuple : layout.tupleAt page' = layout.tupleAt page := by
    funext slot
    simp only [tupleAt, hdata, hid]
  simp only [tuples, occupancy_eq_of_data hdata, htuple]

theorem together_insert (tx : TxId) (tuple : Tuple) :
    Together excused (layout.insert tx tuple) page (layout.insert tx tuple) page'
      (fun placed after placed' after' => placed' = placed ∧
        Page.BothRewritten tx page page' after after')
      (Page.BothLeft tx page page') := by
  have hleft : Page.BothLeft tx page page' page page' := .inl ⟨rfl, rfl⟩
  unfold insert
  split
  · exact together_throw hleft
  rw [together_get, occupancy_eq_of_data hdata, hid]
  refine together_lift (fun occupancy _ => ?_) hleft
  split
  · exact together_throw hleft
  · next slot _ =>
    refine ((together_setHeader hdata tx slot true).mono (fun _ _ _ _ h => h) fun _ _ =>
      False.elim).bind ?_
    rintro _ marked _ marked' hmarked
    have hsame : marked'.data = marked.data := by
      obtain ⟨data, _, rfl, rfl⟩ := hmarked
      rfl
    have hwrite : Together excused (Page.write tx (layout.slotOffset slot) tuple.encode) marked
        (Page.write tx (layout.slotOffset slot) tuple.encode) marked'
        (fun _ after _ after' => Page.BothRewritten tx marked marked' after after')
        (Page.BothLeft tx page page') :=
      (Page.together_write hsame tx _ _).mono (fun _ _ _ _ h => h) fun _ _ h =>
        .inr (hmarked.trans h)
    refine hwrite.bind ?_
    intro _ after _ after' hafter
    exact ⟨rfl, hmarked.trans hafter⟩

theorem together_delete (tx : TxId) (tuple : Tuple) :
    Together excused (layout.delete tx tuple) page (layout.delete tx tuple) page'
      (fun _ after _ after' => Page.BothRewritten tx page page' after after')
      (Page.BothLeft tx page page') := by
  have hleft : Page.BothLeft tx page page' page page' := .inl ⟨rfl, rfl⟩
  have hused : ∀ slot, layout.isSlotUsed page' slot = layout.isSlotUsed page slot := fun slot => by
    simp only [isSlotUsed, occupancy_eq_of_data hdata]
  unfold delete
  rw [together_get, hid]
  cases tuple.rid with
  | none => exact together_throw hleft
  | some rid =>
      dsimp only
      split
      · exact together_throw hleft
      rw [hused]
      refine together_lift (fun used _ => ?_) hleft
      split
      · exact (together_setHeader hdata tx rid.slot false).mono (fun _ _ _ _ h => h) fun _ _ =>
          False.elim
      · exact together_throw hleft

end Layout

end PagePool
