import SurfaceGeometry.Proofs.Integrator.Carry

/-!
# Systems of any dimension

A system that writes the rates of its whole state (`Computes`) is stepped as the method says for
vectors (`vectorStep`): the lists that are written over leave no trace (`step_of_computes`), and so
it is with any number of steps (`trajectory_of_computes`). All that steps need of the lists is their
length, which no step changes (`Workspace.Fits.step`), whatever system it was made for
(`Workspace.Used`). A system without rates at some times is stepped like one with rates as long as
no stage meets such a time (`trajectory?_eq`). Nothing here depends on the arithmetic.
-/

namespace SurfaceGeometry

namespace RungeKutta

variable {α : Type}

/-! ## Lists by their entries -/

/-- Vectors as lists are combined entry by entry. -/
theorem zipWith_ofFn {n : Nat} (f : α → α → α) (x y : Fin n → α) :
    List.zipWith f (List.ofFn x) (List.ofFn y) = List.ofFn fun i => f (x i) (y i) := by
  apply List.ext_getElem
  · simp
  · simp

/-- A list is the vector of its entries. -/
theorem exists_eq_ofFn {n : Nat} {l : List α} (h : l.length = n) :
    ∃ x : Fin n → α, l = List.ofFn x := by
  subst h
  exact ⟨l.get, (List.ofFn_get l).symm⟩

/-- A vector that is written over a list of its length is all that is left. -/
theorem overwrite_ofFn {n : Nat} (x : Fin n → α) {buffer : List α} (h : buffer.length = n) :
    overwrite (List.ofFn x) buffer = List.ofFn x :=
  overwrite_eq (by rw [h, List.length_ofFn])

/-- Overwriting does not change the length of a buffer that is long enough. -/
theorem length_overwrite {numbers buffer : List α} (h : numbers.length ≤ buffer.length) :
    (overwrite numbers buffer).length = buffer.length := by
  rw [overwrite, List.length_append, List.length_drop]
  omega

/-! ## What a system writes -/

variable {n : Nat} {system : System α} {rates : α → (Fin n → α) → Fin n → α}

/-- The system writes the rates of a vector over the whole of a list as long as the vector. -/
def Computes (system : System α) (rates : α → (Fin n → α) → Fin n → α) : Prop :=
  ∀ t x, ∀ buffer : List α, buffer.length = n →
    system t (List.ofFn x) buffer = List.ofFn (rates t x)

/-- A system that writes the whole of a list as long as its state: nothing shows what was in the
list. -/
structure WritesAll (system : System α) (n : Nat) : Prop where
  length (t : α) {state buffer : List α} : state.length = n → buffer.length = n →
    (system t state buffer).length = n
  forgets (t : α) {state buffer buffer' : List α} : state.length = n → buffer.length = n →
    buffer'.length = n → system t state buffer = system t state buffer'

/-- A system that computes rates writes the whole of its list. -/
theorem Computes.writesAll (hs : Computes system rates) : WritesAll system n where
  length t state buffer hstate hbuffer := by
    obtain ⟨x, rfl⟩ := exists_eq_ofFn hstate
    rw [hs t x _ hbuffer, List.length_ofFn]
  forgets t state buffer buffer' hstate hbuffer hbuffer' := by
    obtain ⟨x, rfl⟩ := exists_eq_ofFn hstate
    rw [hs t x _ hbuffer, hs t x _ hbuffer']

/-- A system that writes into lists of `n` numbers, and does not make them longer or shorter. -/
def KeepsLength (system : System α) (n : Nat) : Prop :=
  ∀ (t : α) {state buffer : List α}, state.length ≤ n → buffer.length = n →
    (system t state buffer).length = n

/-! ## Steps of vectors -/

variable [Scalar α] {w : Workspace α}

/-- A vector moved along rates. -/
def moved (h : α) (x k : Fin n → α) : Fin n → α := fun i => x i + h * k i

/-- A state moved along rates, for vectors as lists. -/
theorem advance_ofFn (h : α) (x k : Fin n → α) :
    advance h (List.ofFn x) (List.ofFn k) = List.ofFn (moved h x k) :=
  zipWith_ofFn _ x k

/-- The weighted sum of the four stages, for vectors as lists. -/
theorem combine_ofFn (k₁ k₂ k₃ k₄ : Fin n → α) :
    combine (List.ofFn k₁) (List.ofFn k₂) (List.ofFn k₃) (List.ofFn k₄) =
      List.ofFn fun i => k₁ i + 2 * k₂ i + 2 * k₃ i + k₄ i := by
  simp only [combine, List.map_ofFn, zipWith_ofFn, Function.comp_apply]

/-- A step of size `h` for a vector with the given rates. -/
def vectorStep (rates : α → (Fin n → α) → Fin n → α) (h t : α) (x : Fin n → α) : Fin n → α :=
  let k₁ := rates t x
  let k₂ := rates (t + 0.5 * h) (moved (0.5 * h) x k₁)
  let k₃ := rates (t + 0.5 * h) (moved (0.5 * h) x k₂)
  let k₄ := rates (t + h) (moved h x k₃)
  moved (h / 6) x fun i => k₁ i + 2 * k₂ i + 2 * k₃ i + k₄ i

/-- The times and the vectors behind steps of the given sizes, made one after the other. -/
def vectorTrajectory (rates : α → (Fin n → α) → Fin n → α) (t : α) (x : Fin n → α) :
    List α → List (α × List α)
  | [] => []
  | h :: rest =>
    let x' := vectorStep rates h t x
    (t + h, List.ofFn x') :: vectorTrajectory rates (t + h) x' rest

/-- A step of a system that writes all its rates is the step of the vector. -/
theorem step_of_computes (hs : Computes system rates) (hw : w.Fits n) (t h : α) (x : Fin n → α) :
    ∃ w' : Workspace α, w'.Fits n ∧
      step system w t (List.ofFn x) h = (w', t + h, List.ofFn (vectorStep rates h t x)) := by
  unfold step vectorStep
  dsimp only
  -- Stage by stage: what the system writes, then the state moved along it.
  rw [hs t x _ hw.k₁, advance_ofFn, overwrite_ofFn _ hw.stage, hs _ _ _ hw.k₂, advance_ofFn,
    overwrite_ofFn _ List.length_ofFn, hs _ _ _ hw.k₃, advance_ofFn,
    overwrite_ofFn _ List.length_ofFn, hs _ _ _ hw.k₄, combine_ofFn, advance_ofFn]
  refine ⟨_, ⟨?_, ?_, ?_, ?_, ?_⟩, rfl⟩ <;> exact List.length_ofFn

/-- A run of a system that computes rates goes through the steps of the vector. -/
theorem trajectory_of_computes (hs : Computes system rates) (hw : w.Fits n) (t : α) (x : Fin n → α)
    (sizes : List α) :
    trajectory system w t (List.ofFn x) sizes = vectorTrajectory rates t x sizes := by
  induction sizes generalizing w t x with
  | nil => rfl
  | cons h rest ih =>
    obtain ⟨w', hw', hstep⟩ := step_of_computes hs hw t h x
    rw [trajectory, hstep, vectorTrajectory]
    dsimp only
    rw [ih hw']

/-! ## Lists that earlier steps have used -/

/-- A state that is moved does not get longer. -/
theorem length_advance_le (h : α) (state rates : List α) :
    (advance h state rates).length ≤ state.length := by
  rw [advance, List.length_zipWith]
  exact Nat.min_le_left ..

/-- A step from a state that there is room for leaves as much room as there was. -/
theorem Workspace.Fits.step (hw : w.Fits n) (hs : KeepsLength system n) (t h : α) {state : List α}
    (hstate : state.length ≤ n) : (RungeKutta.step system w t state h).1.Fits n := by
  have hstage (h : α) (rates : List α) {buffer : List α} (hbuffer : buffer.length = n) :
      (overwrite (advance h state rates) buffer).length = n := by
    rw [length_overwrite ((length_advance_le h state rates).trans (hstate.trans hbuffer.ge)),
      hbuffer]
  have h₂ (k₁ : List α) := hstage (0.5 * h) k₁ hw.stage
  have h₃ (k₁ k₂ : List α) := hstage (0.5 * h) k₂ (h₂ k₁)
  have h₄ (k₁ k₂ k₃ : List α) := hstage h k₃ (h₃ k₁ k₂)
  exact ⟨hs t hstate hw.k₁, hs _ (h₂ _).le hw.k₂, hs _ (h₃ _ _).le hw.k₃, hs _ (h₄ _ _ _).le hw.k₄,
    h₄ _ _ _⟩

/-- A workspace for `n` numbers as steps may leave it: new, or behind a step of any system from any
state that there was room for. -/
inductive Workspace.Used (n : Nat) : Workspace α → Prop where
  | new : Used n (.ofDimension n)
  | step {w : Workspace α} {system : System α} (t h : α) {state : List α} : Used n w →
      KeepsLength system n → state.length ≤ n → Used n (RungeKutta.step system w t state h).1

/-- Behind whatever steps, a workspace has room for its number of components. -/
theorem Workspace.Used.fits (h : w.Used n) : w.Fits n := by
  induction h with
  | new => exact ofDimension_fits n
  | step t h _ hs hstate ih => exact ih.step hs t h hstate

/-! ## Systems without memory -/

/-- A system that writes the whole of a list has rates. -/
theorem WritesAll.exists_computes (hs : WritesAll system n) :
    ∃ rates : α → (Fin n → α) → Fin n → α, Computes system rates := by
  have hzeros : (List.replicate n (0 : α)).length = n := List.length_replicate
  have hlength (t : α) (x : Fin n → α) :
      (system t (List.ofFn x) (List.replicate n 0)).length = n :=
    hs.length t List.length_ofFn hzeros
  refine ⟨fun t x i =>
      (system t (List.ofFn x) (List.replicate n 0)).get (i.cast (hlength t x).symm), ?_⟩
  intro t x buffer hbuffer
  rw [hs.forgets t List.length_ofFn hbuffer hzeros]
  apply List.ext_getElem
  · rw [hlength, List.length_ofFn]
  · intro i hi hi'
    exact (List.getElem_ofFn hi').symm

/-- The time and the state behind a step are the same for all lists that the step may write over. -/
theorem WritesAll.step_eq (hs : WritesAll system n) {w' : Workspace α} (hw : w.Fits n)
    (hw' : w'.Fits n) (t h : α) {state : List α} (hstate : state.length = n) :
    (step system w t state h).2 = (step system w' t state h).2 := by
  obtain ⟨x, rfl⟩ := exists_eq_ofFn hstate
  obtain ⟨rates, hrates⟩ := hs.exists_computes
  obtain ⟨_, -, hstep⟩ := step_of_computes hrates hw t h x
  obtain ⟨_, -, hstep'⟩ := step_of_computes hrates hw' t h x
  rw [hstep, hstep']

/-- With a system that writes all of its list, a run does not depend on what the workspace was used
for. -/
theorem WritesAll.trajectory_eq (hs : WritesAll system n) {w' : Workspace α} (hw : w.Fits n)
    (hw' : w'.Fits n) (t : α) {state : List α} (hstate : state.length = n) (sizes : List α) :
    trajectory system w t state sizes = trajectory system w' t state sizes := by
  obtain ⟨x, rfl⟩ := exists_eq_ofFn hstate
  obtain ⟨rates, hrates⟩ := hs.exists_computes
  rw [trajectory_of_computes hrates hw, trajectory_of_computes hrates hw']

/-! ## Systems without a rate somewhere -/

/-- A step of a system whose rates may be missing. -/
def step? (system? : α → List α → List α → Option (List α)) (w : Workspace α) (t : α)
    (state : List α) (h : α) : Option (Workspace α × α × List α) := do
  let k₁ ← system? t state w.k₁
  let stage := overwrite (advance (0.5 * h) state k₁) w.stage
  let k₂ ← system? (t + 0.5 * h) stage w.k₂
  let stage := overwrite (advance (0.5 * h) state k₂) stage
  let k₃ ← system? (t + 0.5 * h) stage w.k₃
  let stage := overwrite (advance h state k₃) stage
  let k₄ ← system? (t + h) stage w.k₄
  return (⟨k₁, k₂, k₃, k₄, stage⟩, t + h, advance (h / 6) state (combine k₁ k₂ k₃ k₄))

/-- The times and states behind steps, if no rates are missing. -/
def trajectory? (system? : α → List α → List α → Option (List α)) (w : Workspace α) (t : α)
    (state : List α) : List α → Option (List (α × List α))
  | [] => some []
  | h :: rest => do
    let next ← step? system? w t state h
    let behind ← trajectory? system? next.1 next.2.1 next.2.2 rest
    return next.2 :: behind

/-- At a time, no rates are missing, and they are those of the system. -/
def Defined (system? : α → List α → List α → Option (List α)) (system : System α) (t : α) : Prop :=
  ∀ state buffer, system? t state buffer = some (system t state buffer)

variable {system? : α → List α → List α → Option (List α)}

/-- A step needs rates at its start, in the middle and at its end. -/
theorem step?_eq {t h : α} (hstart : Defined system? system t)
    (hmiddle : Defined system? system (t + 0.5 * h)) (hend : Defined system? system (t + h))
    (w : Workspace α) (state : List α) :
    step? system? w t state h = some (step system w t state h) := by
  simp only [step?, hstart _ _, hmiddle _ _, hend _ _, Option.bind_eq_bind, Option.bind_some]
  rfl

/-- Steps from times to times with rates, and with rates in between. -/
theorem trajectory?_eq {Inside : α → Prop} (hdefined : ∀ t, Inside t → Defined system? system t)
    {sizes : List α} (hsizes : ∀ h ∈ sizes, ∀ t, Inside t → Inside (t + 0.5 * h) ∧ Inside (t + h))
    (w : Workspace α) {t : α} (ht : Inside t) (state : List α) :
    trajectory? system? w t state sizes = some (trajectory system w t state sizes) := by
  induction sizes generalizing w t state with
  | nil => rfl
  | cons h rest ih =>
    obtain ⟨hh, hrest⟩ := List.forall_mem_cons.1 hsizes
    obtain ⟨hmiddle, hend⟩ := hh t ht
    have hstep := step?_eq (hdefined t ht) (hdefined _ hmiddle) (hdefined _ hend) w state
    have hbehind := ih hrest (step system w t state h).1 hend (step system w t state h).2.2
    rw [trajectory?, hstep, Option.bind_eq_bind, Option.bind_some]
    exact congrArg (Option.bind · _) hbehind

end RungeKutta

end SurfaceGeometry
