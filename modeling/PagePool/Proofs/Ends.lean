import PagePool.Pool.Basic

/-!
# How a step ends

`Ends step state ok fails` says of a step from a state: if it gives a value then `ok` holds of the
value and of the state it leaves, and if it fails then `fails` holds of the failure and of what it
has changed before. One rule for every way of composing steps lets a proof follow the text of a
step.
-/

namespace PagePool

variable {State Result Next : Type}

def Ends (step : EStateM Failure State Result) (state : State)
    (ok : Result → State → Prop) (fails : Failure → State → Prop) : Prop :=
  match step state with
  | .ok result state => ok result state
  | .error failure state => fails failure state

section Rules

variable {state : State} {ok : Result → State → Prop} {next : Next → State → Prop}
  {fails : Failure → State → Prop}

@[simp]
theorem ends_pure (result : Result) :
    Ends (pure result : EStateM Failure State Result) state ok fails ↔ ok result state := Iff.rfl

@[simp]
theorem ends_throw (failure : Failure) :
    Ends (throw failure : EStateM Failure State Result) state ok fails ↔ fails failure state :=
  Iff.rfl

theorem ends_bind {step : EStateM Failure State Result}
    {rest : Result → EStateM Failure State Next} :
    Ends (step >>= rest) state next fails ↔
      Ends step state (fun result after => Ends (rest result) after next fails) fails := by
  simp only [Ends, bind, EStateM.bind]
  cases step state <;> rfl

@[simp]
theorem ends_get {ok : State → State → Prop} :
    Ends (get : EStateM Failure State State) state ok fails ↔ ok state state := Iff.rfl

@[simp]
theorem ends_set {ok : PUnit → State → Prop} (after : State) :
    Ends (set after : EStateM Failure State PUnit) state ok fails ↔ ok ⟨⟩ after := Iff.rfl

@[simp]
theorem ends_modify {ok : PUnit → State → Prop} (change : State → State) :
    Ends (modify change : EStateM Failure State PUnit) state ok fails ↔ ok ⟨⟩ (change state) :=
  Iff.rfl

theorem ends_lift {result : Except Failure Result} :
    Ends (lift result) state ok fails ↔
      (∀ value, result = .ok value → ok value state) ∧
        ∀ failure, result = .error failure → fails failure state := by
  cases result <;> simp [Ends, lift]

end Rules

variable {step : EStateM Failure State Result} {state after : State}
  {ok ok' : Result → State → Prop} {fails fails' : Failure → State → Prop}

theorem Ends.mono (h : Ends step state ok fails)
    (hok : ∀ result after, ok result after → ok' result after)
    (hfails : ∀ failure after, fails failure after → fails' failure after) :
    Ends step state ok' fails' := by
  unfold Ends at h ⊢
  cases hstep : step state with
  | ok result after =>
      rw [hstep] at h
      exact hok result after h
  | error failure after =>
      rw [hstep] at h
      exact hfails failure after h

/-- A step ends in one way only. -/
theorem Ends.and (h : Ends step state ok fails) (h' : Ends step state ok' fails') :
    Ends step state (fun result after => ok result after ∧ ok' result after)
      (fun failure after => fails failure after ∧ fails' failure after) := by
  unfold Ends at h h' ⊢
  cases hstep : step state with
  | ok result after =>
      rw [hstep] at h h'
      exact ⟨h, h'⟩
  | error failure after =>
      rw [hstep] at h h'
      exact ⟨h, h'⟩

theorem Ends.of_ok {result : Result} (h : Ends step state ok fails)
    (hstep : step state = .ok result after) : ok result after := by
  simpa [Ends, hstep] using h

theorem Ends.of_error {failure : Failure} (h : Ends step state ok fails)
    (hstep : step state = .error failure after) : fails failure after := by
  simpa [Ends, hstep] using h

theorem Ends.succeeds (h : Ends step state ok fun _ _ => False) :
    ∃ result after, step state = .ok result after ∧ ok result after := by
  cases hstep : step state with
  | ok result after => exact ⟨result, after, rfl, h.of_ok hstep⟩
  | error failure after => exact (h.of_error hstep).elim

theorem ends_iff_eq {result : Result} :
    Ends step state (fun value final => value = result ∧ final = after) (fun _ _ => False) ↔
      step state = .ok result after := by
  unfold Ends
  cases step state <;> simp

theorem ends_iff_eq_error {failure : Failure} :
    Ends step state (fun _ _ => False) (fun found final => found = failure ∧ final = after) ↔
      step state = .error failure after := by
  unfold Ends
  cases step state <;> simp

/-- Two steps that end alike have done the same. -/
theorem eq_of_ends_iff {step' : EStateM Failure State Result} {state' : State}
    (h : ∀ ok fails, Ends step state ok fails ↔ Ends step' state' ok fails) :
    step state = step' state' := by
  have hends : Ends step state (fun result after => .ok result after = step' state')
      (fun failure after => .error failure after = step' state') := by
    rw [h]
    unfold Ends
    cases step' state' <;> rfl
  unfold Ends at hends
  cases hstep : step state <;> rw [hstep] at hends <;> exact hends

theorem Ends.bind {next : Next → State → Prop} {rest : Result → EStateM Failure State Next}
    (h : Ends step state ok fails)
    (hrest : ∀ result after, ok result after → Ends (rest result) after next fails')
    (hfails : ∀ failure after, fails failure after → fails' failure after) :
    Ends (step >>= rest) state next fails' :=
  ends_bind.2 (h.mono hrest hfails)

end PagePool
