import SurfaceGeometry.Report

/-!
# Steps that can fail

How the answer of two steps in a row, the second of which depends on what the first one gives,
comes from the answers of the two, and the same for the outcomes of reports.
-/

namespace SurfaceGeometry

namespace Outcome

variable {ε α β : Type} {x : Except ε α} {f g : α → Except ε β}

@[simp] theorem ok_bind (a : α) : (Except.ok a : Except ε α) >>= f = f a := rfl

@[simp] theorem error_bind (e : ε) : (Except.error e : Except ε α) >>= f = .error e := rfl

@[simp] theorem pure_eq_ok (a : α) : (pure a : Except ε α) = .ok a := rfl

/-- Two steps succeed when the first does and the second does on what it gives. -/
theorem bind_eq_ok {b : β} : x >>= f = .ok b ↔ ∃ a, x = .ok a ∧ f a = .ok b := by
  cases x with
  | error e => simp
  | ok a => simp

/-- Two steps fail when the first does, or when the second does on what the first gives. -/
theorem bind_eq_error {e : ε} :
    x >>= f = .error e ↔ x = .error e ∨ ∃ a, x = .ok a ∧ f a = .error e := by
  cases x with
  | error e' => simp
  | ok a => simp

/-- The second step matters only on what the first one gives. -/
theorem bind_congr_of_ok (h : ∀ a, x = .ok a → f a = g a) : x >>= f = x >>= g := by
  cases x with
  | error e => rfl
  | ok a => exact h a rfl

/-- Two pairs of steps have the same answer when the first steps have, and the second steps on what
the first ones give. -/
theorem bind_congr {y : Except ε α} (hxy : x = y) (h : ∀ a, y = .ok a → f a = g a) :
    x >>= f = y >>= g := by
  rw [hxy]
  exact bind_congr_of_ok h

/-- A step that is mapped succeeds when the step does. -/
theorem map_eq_ok {f : α → β} {b : β} : x.map f = .ok b ↔ ∃ a, x = .ok a ∧ f a = b := by
  cases x with
  | error e => simp [Except.map]
  | ok a => simp [Except.map]

/-- To have succeeded is to have a result. -/
theorem isOk_iff : x.isOk = true ↔ ∃ a, x = .ok a := by
  cases x with
  | error e => simp [Except.isOk, Except.toBool]
  | ok a => simp [Except.isOk, Except.toBool]

/-- To give failures other names keeps the results. -/
theorem mapError_eq_ok {ε' : Type} {f : ε → ε'} {a : α} : x.mapError f = .ok a ↔ x = .ok a := by
  cases x with
  | error e =>
    constructor
    · intro h
      cases h
    · intro h
      cases h
  | ok c =>
    constructor
    · rintro ⟨⟩
      rfl
    · rintro ⟨⟩
      rfl

/-- The result of a step, or what there was before if the step fails. -/
def orKeep (old : α) : Except ε α → α
  | .ok a => a
  | .error _ => old

/-- What there was before has a property and every result has it, then what there is has it. -/
theorem orKeep_of {p : α → Prop} {old : α} (hold : p old) (h : ∀ a, x = .ok a → p a) :
    p (orKeep old x) := by
  cases x with
  | error e => exact hold
  | ok a => exact h a rfl

/-- Every failure of a step has a property. -/
def FailsOnly (p : ε → Prop) (x : Except ε α) : Prop :=
  ∀ e, x = .error e → p e

/-- A step that succeeds has no failure. -/
theorem FailsOnly.ok {p : ε → Prop} (a : α) : FailsOnly p (.ok a : Except ε α) :=
  fun _ h => nomatch h

/-- A failure with the property is the only one of its step. -/
theorem FailsOnly.error {p : ε → Prop} {e : ε} (h : p e) :
    FailsOnly p (.error e : Except ε α) := by
  rintro _ ⟨⟩
  exact h

/-- Two steps fail with the property when the first does and the second does on what the first
gives. -/
theorem FailsOnly.bind_of_ok {p : ε → Prop} (hx : FailsOnly p x)
    (hf : ∀ a, x = .ok a → FailsOnly p (f a)) : FailsOnly p (x >>= f) := by
  intro e h
  rcases bind_eq_error.1 h with h | ⟨a, ha, h⟩
  · exact hx e h
  · exact hf a ha e h

/-- Two steps fail with the property when each of them does, whatever it is given. -/
theorem FailsOnly.bind {p : ε → Prop} (hx : FailsOnly p x) (hf : ∀ a, FailsOnly p (f a)) :
    FailsOnly p (x >>= f) :=
  hx.bind_of_ok fun a _ => hf a

/-- A weaker property may be said of the failures. -/
theorem FailsOnly.mono {p q : ε → Prop} (hx : FailsOnly p x) (h : ∀ e, p e → q e) :
    FailsOnly q x := by
  intro e he
  exact h e (hx e he)

end Outcome

/-! ## Reports -/

namespace Report

variable {ω ε β γ : Type}

/-- Two computations succeed when the first does and the second does on what it gives. -/
theorem bind_eq_ok {r : Report ω ε β} {next : β → Report ω ε γ} {c : γ} :
    (r >>= next).outcome = .ok c ↔ ∃ b, r.outcome = .ok b ∧ (next b).outcome = .ok c := by
  show (Report.bind r next).outcome = .ok c ↔ _
  unfold Report.bind
  cases r.outcome <;> simp

/-- The failures of a report may be told otherwise; its results stay. -/
theorem mapError_eq_ok {ε' : Type} {f : ε → ε'} {r : Report ω ε β} {b : β} :
    (r.mapError f).outcome = .ok b ↔ r.outcome = .ok b :=
  Outcome.mapError_eq_ok

end Report

end SurfaceGeometry
