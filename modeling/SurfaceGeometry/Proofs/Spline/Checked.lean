import SurfaceGeometry.Proofs.Spline.Knots

/-!
# Splines without faults

A spline evaluated with every step checked (`Spline.checked`): an index outside the knots or the
samples, a subtraction below zero, a search in knots that are not sorted and a divisor that is zero
leave it without value. None of this happens to a spline that there is, and the value is that of
`Spline.eval` (`Spline.checked_eq`). The order of its knots is what excludes it: a number between
the first knot and the last is in a segment, and no two knots that are subtracted are equal.
-/

namespace SurfaceGeometry

/-- A quotient whose divisor is not zero. -/
def Scalar.quotient? {α : Type} [Scalar α] (a b : α) : Option α :=
  if b == 0 then none else some (a / b)

/-- The number of elements with a property, if they are all in front of the others. -/
def partitionPoint? {α : Type} (p : α → Bool) (l : List α) : Option Nat :=
  let n := (l.takeWhile p).length
  if (l.drop n).any p then none else some n

namespace Spline

variable {α V : Type} [Scalar α] [Add V] [Sub V] [HMul V α V]

/-- The cubic with the values `y₁`, `y₂` and the slopes `m₁`, `m₂` at the ends of a segment of
length `dx`, after the part `s` of it. -/
def cubic (s dx : α) (y₁ y₂ m₁ m₂ : V) : V :=
  let s2 := s * s
  let s3 := s2 * s
  let h00 := 2 * s3 - 3 * s2 + 1
  let h10 := s3 - 2 * s2 + s
  let h01 := -2 * s3 + 3 * s2
  let h11 := s3 - s2
  y₁ * h00 + m₁ * (h10 * dx) + y₂ * h01 + m₂ * (h11 * dx)

/-- The value on a segment, if nothing goes wrong. -/
def checkedPiece (knots : Array α) (samples : Array V) (tension t : α) (i greatest : Nat) :
    Option V := do
  let before := i - 1
  let next := i + 1
  let behind := min (i + 2) greatest
  let x₀ ← knots[before]?
  let x₁ ← knots[i]?
  let x₂ ← knots[next]?
  let x₃ ← knots[behind]?
  let y₀ ← samples[before]?
  let y₁ ← samples[i]?
  let y₂ ← samples[next]?
  let y₃ ← samples[behind]?
  let scale := 1 - tension
  let m₁ := (y₂ - y₀) * (← Scalar.quotient? scale (x₂ - x₀))
  let m₂ := (y₃ - y₁) * (← Scalar.quotient? scale (x₃ - x₁))
  let dx := x₂ - x₁
  let s ← Scalar.quotient? (t - x₁) dx
  return cubic s dx y₁ y₂ m₁ m₂

/-- The value of the spline through samples at knots, if nothing goes wrong. -/
def checked (knots : Array α) (samples : Array V) (tension t : α) : Option V := do
  let first ← knots[0]?
  if Scalar.isNaN t || decide (t ≤ first) then samples[0]?
  else do
    let greatest ← knots.size.ppred
    let last ← knots[greatest]?
    if t ≥ last then samples[greatest]?
    else do
      let count ← partitionPoint? (fun k => decide (k ≤ t)) knots.toList
      let i ← count.ppred
      checkedPiece knots samples tension t i greatest

end Spline

/-! ## Single steps -/

namespace Spline

/-- Each position that has a knot has a sample, so the read of a sample does not fail. -/
theorem getElem?_samples {α V : Type} [Scalar α] (s : Spline α V) {i : Nat}
    (hi : i < s.knots.size) : s.samples[i]? = some (s.sample i hi) :=
  Array.getElem?_eq_getElem _

variable {α V : Type} [Scalar α] [Scalar.Ordered α] {s : Spline α V} {i j : Nat} {t : α}

/-- No two knots differ by zero. -/
theorem quotient?_knots (hij : i < j) (hi : i < s.knots.size) (hj : j < s.knots.size) (a : α) :
    Scalar.quotient? a (s.knots[j] - s.knots[i]) = some (a / (s.knots[j] - s.knots[i])) := by
  have hne := Scalar.Ordered.sub_beq_zero (isFinite_knot hi) (isFinite_knot hj) (knots_lt hij hj)
  rw [Scalar.quotient?, if_neg (Bool.eq_false_iff.1 hne)]

/-- The knots up to a number are all in front of the others. -/
theorem partitionPoint?_knots (hfirst : s.first ≤ t) (hlast : t < s.last) :
    partitionPoint? (fun k => decide (k ≤ t)) s.knots.toList = some (s.segment t + 1) := by
  obtain ⟨i, hi, hlo, hhi⟩ := exists_segment hfirst hlast
  have hbehind : ((s.knots.toList.drop (i + 1)).any fun k => decide (k ≤ t)) = false := by
    rw [List.any_eq_false]
    intro k hk
    obtain ⟨j, hj, rfl⟩ := List.mem_drop_iff_getElem.1 hk
    have hlt : i + 1 + j < s.knots.size := by
      rw [Array.length_toList] at hj
      omega
    have hgreater : t < s.knots[i + 1 + j] := Scalar.lt_of_lt_of_le hhi (knots_le (by omega) hlt)
    exact fun hle => Scalar.not_le_of_gt hgreater (of_decide_eq_true hle)
  unfold partitionPoint?
  rw [length_takeWhile_knots hi hlo hhi, segment_eq hi hlo hhi]
  exact if_neg (Bool.eq_false_iff.1 hbehind)

variable [Add V] [Sub V] [HMul V α V]

/-- Nothing goes wrong on a segment. -/
theorem checkedPiece_eq (hi : i + 1 < s.knots.size) (t : α) :
    checkedPiece s.knots s.samples s.tension t i (s.knots.size - 1) = some (s.piece i hi t) := by
  have hbefore : i - 1 < s.knots.size := by omega
  have hat : i < s.knots.size := by omega
  have hbehind : min (i + 2) (s.knots.size - 1) < s.knots.size := by omega
  unfold checkedPiece
  simp only [Array.getElem?_eq_getElem hbefore, Array.getElem?_eq_getElem hat,
    Array.getElem?_eq_getElem hi, Array.getElem?_eq_getElem hbehind, getElem?_samples s hbefore,
    getElem?_samples s hat, getElem?_samples s hi, getElem?_samples s hbehind,
    quotient?_knots (show i - 1 < i + 1 by omega) hbefore hi,
    quotient?_knots (show i < min (i + 2) (s.knots.size - 1) by omega) hat hbehind,
    quotient?_knots (show i < i + 1 by omega) hat hi, Option.bind_eq_bind, Option.bind_some]
  rfl

/-- Nothing goes wrong in a spline. -/
theorem checked_eq (s : Spline α V) (t : α) :
    checked s.knots s.samples s.tension t = some (s.eval t) := by
  have hppred : s.knots.size.ppred = some (s.knots.size - 1) := by
    rw [Nat.ppred_eq_some]
    have := s.size_pos
    omega
  unfold checked
  simp only [Array.getElem?_eq_getElem s.size_pos, Array.getElem?_eq_getElem s.last_lt, hppred,
    Option.bind_eq_bind, Option.bind_some]
  split
  · next hbelow =>
    rw [Bool.or_eq_true, decide_eq_true_iff] at hbelow
    rw [getElem?_samples s s.size_pos, eval_of_below hbelow]
  split
  · next hlast => rw [getElem?_samples s s.last_lt, eval_of_ge hlast]
  · next hbelow hlast =>
    have hfirst : s.first < t := not_not.1 (below_iff.not.1 hbelow)
    have hvalue := (Scalar.Ordered.isNaN_of_le (Scalar.le_of_lt hfirst)).2
    have hlast : t < s.last := Scalar.lt_of_not_ge hvalue (isNaN_knot s.last_lt) hlast
    rw [partitionPoint?_knots (Scalar.le_of_lt hfirst) hlast, eval_of_inside hfirst hlast]
    simp only [Option.bind_some, Nat.ppred_succ, checkedPiece_eq (s.segment_lt t)]

/-! ## Splines that there are -/

/-- What a spline that was made from knots and samples does everywhere. -/
structure Sound (s : Spline α V) (knots : Array α) (samples : Array V) (tension : α) : Prop where
  checked : ∀ t, checked knots samples tension t = some (s.eval t)
  first : ∀ t, Scalar.isNaN t = true ∨ t ≤ s.first → s.eval t = s.sample 0 s.size_pos
  last : ∀ t, s.last ≤ t → s.eval t = s.sample (s.knots.size - 1) s.last_lt
  segment : ∀ t, s.first < t → t < s.last →
    have hi := s.segment_lt t
    s.knots[s.segment t] ≤ t ∧ t < s.knots[s.segment t + 1] ∧ s.eval t = s.piece (s.segment t) hi t
  made : s.knots = knots ∧ s.samples = samples ∧ s.tension = tension

/-- A spline that was accepted is sound: it is made of what was given, its reads are in bounds, no
divisor is zero, and it keeps its first and last sample outside its knots. -/
theorem sound {knots : Array α} {samples : Array V} {tension : α} {s : Spline α V}
    (h : ofKnots knots samples tension = .ok s) : s.Sound knots samples tension := by
  obtain ⟨rfl, rfl, rfl⟩ := ofKnots_eq_ok_iff.1 h
  exact {
    checked := s.checked_eq
    first := fun _ => eval_of_below
    last := fun _ => eval_of_ge
    segment := fun t hfirst hlast => by
      obtain ⟨i, hi, hlo, hhi⟩ := exists_segment (Scalar.le_of_lt hfirst) hlast
      obtain rfl := segment_eq hi hlo hhi
      exact ⟨hlo, hhi, eval_of_inside hfirst hlast⟩
    made := ⟨rfl, rfl, rfl⟩ }

end Spline

end SurfaceGeometry
