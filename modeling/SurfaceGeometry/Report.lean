/-!
# Reports

The outcome of a computation that can fail, together with the warnings that it gave on the way.
The warnings are kept whether it fails or not.
-/

namespace SurfaceGeometry

/-- A result or a failure, and the warnings given before it, the earliest first. -/
structure Report (ω ε β : Type) where
  warnings : List ω
  outcome : Except ε β

namespace Report

variable {ω ε β γ : Type}

/-- A result without warnings. -/
protected def pure (value : β) : Report ω ε β := ⟨[], .ok value⟩

/-- Goes on with a result, or stops at a failure; the warnings add up. -/
protected def bind (r : Report ω ε β) (next : β → Report ω ε γ) : Report ω ε γ :=
  match r.outcome with
  | .ok value => ⟨r.warnings ++ (next value).warnings, (next value).outcome⟩
  | .error e => ⟨r.warnings, .error e⟩

instance : Monad (Report ω ε) where
  pure := Report.pure
  bind := Report.bind

/-- A computation that gives no warnings. -/
def ofExcept (outcome : Except ε β) : Report ω ε β := ⟨[], outcome⟩

/-- Gives a warning. -/
def warn (warning : ω) : Report ω ε Unit := ⟨[warning], .ok ()⟩

/-- Takes the failures of a computation as failures of another kind. -/
def mapError {ε' : Type} (f : ε → ε') (r : Report ω ε β) : Report ω ε' β :=
  ⟨r.warnings, r.outcome.mapError f⟩

end Report

end SurfaceGeometry
