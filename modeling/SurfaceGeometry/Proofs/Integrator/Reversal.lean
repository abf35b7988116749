import SurfaceGeometry.Proofs.Exact.Real
import SurfaceGeometry.Surface.BlackHole

/-!
# Steps backwards

A velocity Verlet step moves with the velocity in the middle of the step. The first of its two
accelerations is the one at the velocity before, and the step backwards begins with the one at the
velocity behind. In exact arithmetic the step of opposite size undoes a step just if both are also
the accelerations at the velocity in the middle (`step_neg_step_eq_iff`). That is so wherever the
acceleration depends on the position alone, for any number of steps (`reversible`). Around a black
hole it is not so (`not_reversible_light`).
-/

namespace SurfaceGeometry

namespace Vec2

variable {K : Type} [Field K]

/-- A vector that is moved does not stay where it is. -/
theorem add_sub_mul_eq_self_iff {u v w : Vec2 K} {c : K} :
    u + (v - w) * c = u ↔ c = 0 ∨ v = w := by
  have hpart (a b d : K) : a + (b - d) * c = a ↔ c = 0 ∨ b = d := by
    rw [add_eq_left, mul_eq_zero, sub_eq_zero, or_comm]
  rw [Vec2.ext_iff, Vec2.ext_iff (x := v), or_and_left]
  exact and_congr (hpart _ _ _) (hpart _ _ _)

/-- Half a step with one acceleration, and half a step backwards with another one. -/
theorem add_mul_add_mul_neg (u v w : Vec2 K) (c : K) : u + v * c + w * -c = u + (v - w) * c := by
  have hpart (a b d : K) : a + b * c + d * -c = a + (b - d) * c := by ring
  exact Vec2.ext (hpart _ _ _) (hpart _ _ _)

end Vec2

namespace Verlet

section
variable {α : Type} [Scalar α]

/-- The velocity with which a step moves. -/
def middle (h : α) (acceleration : TangentVector α → Vec2 α) (s : TangentVector α) : Vec2 α :=
  s.vel + acceleration s * (0.5 * h)

/-- The accelerations at both ends of a step are those at the velocity with which it moves. -/
structure Balanced (h : α) (acceleration : TangentVector α → Vec2 α)
    (s : TangentVector α) : Prop where
  start : acceleration ⟨s.pos, middle h acceleration s⟩ = acceleration s
  finish : acceleration ⟨(step h acceleration s).pos, middle h acceleration s⟩ =
    acceleration (step h acceleration s)

/-- A step moves along the velocity in its middle. -/
theorem step_pos (h : α) (acceleration : TangentVector α → Vec2 α) (s : TangentVector α) :
    (step h acceleration s).pos = s.pos + middle h acceleration s * h := rfl

/-- The second half of a step is made with the acceleration at the new position, but at the velocity
in the middle. -/
theorem step_vel (h : α) (acceleration : TangentVector α → Vec2 α) (s : TangentVector α) :
    (step h acceleration s).vel = middle h acceleration s +
      acceleration ⟨(step h acceleration s).pos, middle h acceleration s⟩ * (0.5 * h) := rfl

/-- An acceleration that depends on the position alone is the same at every velocity. -/
theorem Balanced.of_position {acceleration : TangentVector α → Vec2 α}
    (hacceleration : ∀ pos v w, acceleration ⟨pos, v⟩ = acceleration ⟨pos, w⟩) (h : α)
    (s : TangentVector α) : Balanced h acceleration s :=
  ⟨hacceleration .., hacceleration ..⟩

end

variable {K : Type} [Field K] [LinearOrder K] [ElementaryFunctions K]

/-- A step of size zero does nothing. -/
theorem step_zero (acceleration : TangentVector K → Vec2 K) (s : TangentVector K) :
    step 0 acceleration s = s := by
  have hmul (v : Vec2 K) : v * (0 : K) = ⟨0, 0⟩ := Vec2.ext (mul_zero _) (mul_zero _)
  have hadd (v : Vec2 K) : v + (⟨0, 0⟩ : Vec2 K) = v := Vec2.ext (add_zero _) (add_zero _)
  simp only [step, mul_zero, hmul, hadd]

variable [IsStrictOrderedRing K] {acceleration : TangentVector K → Vec2 K} {h : K}
  {s : TangentVector K}

/-- The step backwards moves with another velocity where the accelerations behind the step differ.
-/
theorem middle_neg (h : K) (acceleration : TangentVector K → Vec2 K) (s : TangentVector K) :
    middle (-h) acceleration (step h acceleration s) = middle h acceleration s +
      (acceleration ⟨(step h acceleration s).pos, middle h acceleration s⟩ -
        acceleration (step h acceleration s)) * (1 / 2 * h) := by
  rw [middle, step_vel, Exact.half_eq, mul_neg, Vec2.add_mul_add_mul_neg]

/-- By as much it misses the start. -/
theorem step_neg_step_pos (h : K) (acceleration : TangentVector K → Vec2 K) (s : TangentVector K) :
    (step (-h) acceleration (step h acceleration s)).pos = s.pos +
      (acceleration (step h acceleration s) -
        acceleration ⟨(step h acceleration s).pos, middle h acceleration s⟩) * (1 / 2 * h * h) := by
  have hpart (a b c d p : K) : a + b * h + (b + (c - d) * p) * -h = a + (d - c) * (p * h) := by ring
  rw [step_pos, middle_neg]
  exact Vec2.ext (hpart _ _ _ _ _) (hpart _ _ _ _ _)

/-- Where the accelerations behind the step agree, the step backwards gets back to the start, with
the velocity that is left of the first half of the step. -/
theorem step_neg_step
    (hfinish : acceleration ⟨(step h acceleration s).pos, middle h acceleration s⟩ =
      acceleration (step h acceleration s)) :
    step (-h) acceleration (step h acceleration s) = ⟨s.pos, s.vel +
      (acceleration s - acceleration ⟨s.pos, middle h acceleration s⟩) * (1 / 2 * h)⟩ := by
  have hmiddle : middle (-h) acceleration (step h acceleration s) = middle h acceleration s := by
    rw [middle_neg, Vec2.add_sub_mul_eq_self_iff.2 (.inr hfinish)]
  have hpos : (step (-h) acceleration (step h acceleration s)).pos = s.pos := by
    rw [step_neg_step_pos, Vec2.add_sub_mul_eq_self_iff.2 (.inr hfinish.symm)]
  apply TangentVector.ext
  · exact hpos
  · rw [step_vel, hpos, hmiddle, middle, Exact.half_eq, mul_neg, Vec2.add_mul_add_mul_neg]

/-- The step of opposite size undoes a step just if the step has no size or is balanced: the
position is back if the velocities in the middle agree, and then the velocity is. -/
theorem step_neg_step_eq_iff :
    step (-h) acceleration (step h acceleration s) = s ↔ h = 0 ∨ Balanced h acceleration s := by
  by_cases hh : h = 0
  · subst hh
    rw [neg_zero, step_zero, step_zero]
    exact iff_of_true rfl (.inl rfl)
  have hhalf : 1 / 2 * h ≠ 0 := mul_ne_zero (one_div_ne_zero two_ne_zero) hh
  refine Iff.trans ⟨fun hback => ?_, fun hs => ?_⟩ (or_iff_right hh).symm
  · have hpos := congrArg TangentVector.pos hback
    rw [step_neg_step_pos, Vec2.add_sub_mul_eq_self_iff] at hpos
    have hfinish := (hpos.resolve_left (mul_ne_zero hhalf hh)).symm
    rw [step_neg_step hfinish] at hback
    have hvel := Vec2.add_sub_mul_eq_self_iff.1 (congrArg TangentVector.vel hback)
    exact ⟨(hvel.resolve_left hhalf).symm, hfinish⟩
  · rw [step_neg_step hs.finish, Vec2.add_sub_mul_eq_self_iff.2 (.inr hs.start.symm)]

/-- Any number of steps, each of them balanced, are undone by as many steps backwards. -/
theorem iterate_neg_iterate (h : K) (acceleration : TangentVector K → Vec2 K) {n : Nat}
    (hs : ∀ k < n, Balanced h acceleration ((step h acceleration)^[k] s)) :
    (step (-h) acceleration)^[n] ((step h acceleration)^[n] s) = s := by
  induction n with
  | zero => rfl
  | succ n ih =>
    rw [Function.iterate_succ_apply' (step h acceleration), Function.iterate_succ_apply,
      step_neg_step_eq_iff.2 (.inr (hs n n.lt_succ_self))]
    exact ih fun k hk => hs k (hk.trans n.lt_succ_self)

/-- A step is undone by the step of opposite size just if it is balanced, and so are any number of
balanced steps. Where the acceleration depends on the position alone, all steps are. -/
theorem reversible (acceleration : TangentVector K → Vec2 K) :
    (∀ h s, step (-h) acceleration (step h acceleration s) = s ↔
      h = 0 ∨ Balanced h acceleration s) ∧
    (∀ h n s, (∀ k < n, Balanced h acceleration ((step h acceleration)^[k] s)) →
      (step (-h) acceleration)^[n] ((step h acceleration)^[n] s) = s) ∧
    ((∀ pos v w, acceleration ⟨pos, v⟩ = acceleration ⟨pos, w⟩) →
      ∀ h n, Function.LeftInverse (step (-h) acceleration)^[n] (step h acceleration)^[n]) := by
  refine ⟨?_, ?_, ?_⟩
  · intro h s
    exact step_neg_step_eq_iff
  · intro h n s hs
    exact iterate_neg_iterate h acceleration hs
  · intro hacceleration h n s
    exact iterate_neg_iterate h acceleration fun k _ => .of_position hacceleration h _

/-- Three steps on a spring, and back. -/
theorem reversible_spring :
    let spring : TangentVector ℝ → Vec2 ℝ := fun s => ⟨-s.pos.x, -s.pos.y⟩
    (∀ pos v w, spring ⟨pos, v⟩ = spring ⟨pos, w⟩) ∧
      (∀ k < 3, Balanced (1 / 2) spring ((step (1 / 2) spring)^[k] ⟨⟨1, 0⟩, ⟨0, 1⟩⟩)) ∧
      (step (-(1 / 2)) spring)^[3] ((step (1 / 2) spring)^[3] ⟨⟨1, 0⟩, ⟨0, 1⟩⟩) = ⟨⟨1, 0⟩, ⟨0, 1⟩⟩ ∧
      Function.LeftInverse (step (-(1 / 2)) spring)^[3] (step (1 / 2) spring)^[3] := by
  intro spring
  have hspring (pos v w : Vec2 ℝ) : spring ⟨pos, v⟩ = spring ⟨pos, w⟩ := rfl
  have hbalanced : ∀ k < 3, Balanced (1 / 2) spring ((step (1 / 2) spring)^[k] ⟨⟨1, 0⟩, ⟨0, 1⟩⟩) :=
    fun k _ => .of_position hspring _ _
  obtain ⟨-, hrun, hposition⟩ := reversible spring
  exact ⟨hspring, hbalanced, hrun _ 3 _ hbalanced, hposition hspring _ 3⟩

/-- A light ray that leaves the circle of two Schwarzschild radii, one step outwards and one step
back. -/
theorem not_reversible_light :
    let acceleration : TangentVector ℝ → Vec2 ℝ := Optical.acceleration 1
    let s : TangentVector ℝ := ⟨⟨2, 0⟩, ⟨1, 0⟩⟩
    step 2 acceleration s = ⟨⟨5, 0⟩, ⟨129 / 80, 0⟩⟩ ∧
      (step (-2) acceleration (step 2 acceleration s)).pos = ⟨130241 / 64000, 0⟩ ∧
      ¬∀ h s, step (-h) acceleration (step h acceleration s) = s := by
  intro acceleration s
  have hray (u up : ℝ) : acceleration ⟨⟨u, 0⟩, ⟨up, 0⟩⟩ = ⟨-(up * up / (u * (1 - u))), 0⟩ := by
    apply Vec2.ext
    · simp [acceleration, Optical.acceleration]
    · simp [acceleration, Optical.acceleration]
  have hstep {h u up m v : ℝ} (hm : up + -(up * up / (u * (1 - u))) * (1 / 2 * h) = m)
      (hu : u + m * h = v) : step h acceleration ⟨⟨u, 0⟩, ⟨up, 0⟩⟩ =
        ⟨⟨v, 0⟩, ⟨m + -(m * m / (v * (1 - v))) * (1 / 2 * h), 0⟩⟩ := by
    have hmiddle : middle h acceleration ⟨⟨u, 0⟩, ⟨up, 0⟩⟩ = ⟨m, 0⟩ := by
      rw [middle, hray, Exact.half_eq, ← hm]
      exact Vec2.ext rfl (by simp)
    have hpos : (step h acceleration ⟨⟨u, 0⟩, ⟨up, 0⟩⟩).pos = ⟨v, 0⟩ := by
      rw [step_pos, hmiddle, ← hu]
      exact Vec2.ext rfl (by simp)
    refine TangentVector.ext hpos ?_
    rw [step_vel, hpos, hmiddle, hray, Exact.half_eq]
    exact Vec2.ext rfl (by simp)
  have hforth : step 2 acceleration s = ⟨⟨5, 0⟩, ⟨129 / 80, 0⟩⟩ := by
    rw [hstep (m := 3 / 2) (v := 5) (by norm_num) (by norm_num)]
    norm_num
  have hback : (step (-2) acceleration (step 2 acceleration s)).pos = ⟨130241 / 64000, 0⟩ := by
    rw [hforth, hstep (m := 189759 / 128000) (v := 130241 / 64000) (by norm_num) (by norm_num)]
  refine ⟨hforth, hback, fun hreversible => ?_⟩
  have hpos : (130241 / 64000 : ℝ) = 2 := by
    rw [hreversible] at hback
    exact (congrArg Vec2.x hback).symm
  norm_num at hpos

end Verlet

end SurfaceGeometry
