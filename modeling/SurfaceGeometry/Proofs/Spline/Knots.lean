import SurfaceGeometry.Proofs.Number.Ordered
import SurfaceGeometry.Plane
import SurfaceGeometry.Spline

/-!
# Splines at their knots

Where numbers are ordered, as doubles and exact numbers are, each number between the first knot and
the last is in a segment (`Spline.exists_segment`), and the search of a spline finds it
(`Spline.segment_eq`). Outside its knots a spline keeps its first sample and its last
(`Spline.eval_of_le`, `Spline.eval_of_ge`). In exact arithmetic every strictly increasing list of
two or more knots has a spline (`Spline.exists_ofKnots`), and a spline runs through its samples
(`Spline.eval_knot`).
-/

namespace SurfaceGeometry

/-- What a cubic needs of its samples to start with the first of them. -/
class Interpolant (K V : Type) [Field K] [Add V] [HMul V K V] : Prop where
  one (v : V) : v * (1 : K) = v
  zero (u v : V) : u + v * (0 : K) = u

instance (K : Type) [Field K] : Interpolant K K where
  one := mul_one
  zero u v := by rw [mul_zero, add_zero]

instance (K : Type) [Field K] : Interpolant K (Vec2 K) where
  one v := Vec2.ext (mul_one v.x) (mul_one v.y)
  zero u v := by
    apply Vec2.ext
    · rw [Vec2.add_x, Vec2.mul_x, mul_zero, add_zero]
    · rw [Vec2.add_y, Vec2.mul_y, mul_zero, add_zero]

/-! ## Numbered lists -/

/-- A numbered list starts with its value at zero, and the rest is numbered from one. -/
theorem map_range_succ {α : Type} (f : Nat → α) (n : Nat) :
    (List.range (n + 1)).map f = f 0 :: (List.range n).map fun i => f (i + 1) := by
  rw [List.range_succ_eq_map, List.map_cons, List.map_map]
  rfl

/-- A list numbered by a strictly increasing function is sorted. -/
theorem pairwise_map_range {α : Type} [Preorder α] {f : Nat → α} (hf : StrictMono f) (n : Nat) :
    ((List.range n).map f).Pairwise (· < ·) :=
  List.pairwise_map.2 (List.pairwise_lt_range.imp fun h => hf h)

/-! ## Increasing lists -/

section
variable {α : Type} [Scalar α]

/-- The numbers up to a bound are those before the first one that is not. -/
theorem length_takeWhile_le {l : List α} {t : α} {n : Nat} (hn : n < l.length)
    (hbefore : ∀ i, (hi : i < n) → l[i] ≤ t) (hat : ¬l[n] ≤ t) :
    (l.takeWhile fun a => decide (a ≤ t)).length = n := by
  have hprefix : ∀ a ∈ l.take n, decide (a ≤ t) = true := by
    intro a ha
    obtain ⟨i, hi, rfl⟩ := List.mem_take_iff_getElem.1 ha
    exact decide_eq_true (hbefore i (by omega))
  have hsplit : l = l.take n ++ l[n] :: l.drop (n + 1) := by
    rw [← List.drop_eq_getElem_cons, List.take_append_drop]
  rw [hsplit, List.takeWhile_append_of_pos hprefix, List.takeWhile_cons_of_neg (by simpa using hat),
    List.append_nil, List.length_take]
  exact Nat.min_eq_left hn.le

variable [Scalar.Ordered α]

/-- A list of numbers with values is increasing if each number is less than the next one. -/
theorem increasing_iff_isChain {l : List α} (hl : ∀ a ∈ l, Scalar.isNaN a = false) :
    increasing l = true ↔ l.IsChain (· < ·) := by
  induction l with
  | nil => exact iff_of_true rfl .nil
  | cons a rest ih =>
    cases rest with
    | nil => exact iff_of_true rfl (.singleton a)
    | cons b rest =>
      have hlt : ¬b ≤ a ↔ a < b :=
        ⟨Scalar.lt_of_not_ge (hl a (by simp)) (hl b (by simp)), Scalar.not_le_of_gt⟩
      rw [increasing, Bool.and_eq_true, Bool.not_eq_true', decide_eq_false_iff_not, hlt,
        ih fun c hc => hl c (.tail _ hc), List.isChain_cons_cons]

/-- A list of numbers with values is increasing just when each number is less than all later ones.
-/
theorem increasing_iff_pairwise_lt {l : List α} (hl : ∀ a ∈ l, Scalar.isNaN a = false) :
    increasing l = true ↔ l.Pairwise (· < ·) := by
  have : IsTrans α (· < ·) := ⟨fun _ _ _ hab hbc => Scalar.lt_of_lt_of_le hab (Scalar.le_of_lt hbc)⟩
  rw [increasing_iff_isChain hl, List.isChain_iff_pairwise]

end

/-- In exact arithmetic every number has a value, so that the check of the knots says that they are
sorted, and no more. -/
theorem increasing_iff_pairwise {K : Type} [Field K] [LinearOrder K] [ElementaryFunctions K]
    {l : List K} : increasing l = true ↔ l.Pairwise (· < ·) :=
  increasing_iff_pairwise_lt fun _ _ => rfl

namespace Spline

section
variable {α V : Type} [Scalar α]

/-- A spline has a first knot. -/
theorem size_pos (s : Spline α V) : 0 < s.knots.size :=
  Nat.lt_of_lt_of_le two_pos s.two_le_size

/-- A spline has a last knot. -/
theorem last_lt (s : Spline α V) : s.knots.size - 1 < s.knots.size :=
  Nat.sub_lt s.size_pos one_pos

/-- A spline is made from its knots, samples and tension, and from nothing else. -/
theorem ofKnots_eq_ok_iff {knots : Array α} {samples : Array V} {tension : α} {s : Spline α V} :
    ofKnots knots samples tension = .ok s ↔
      s.knots = knots ∧ s.samples = samples ∧ s.tension = tension := by
  constructor
  · intro h
    unfold ofKnots at h
    split at h
    next => split at h
            next => split at h
                    next => split at h
                            next => cases h; exact ⟨rfl, rfl, rfl⟩
                            next => cases h
                    next => cases h
            next => cases h
    next => cases h
  · rintro ⟨rfl, rfl, rfl⟩
    rw [ofKnots, dif_pos s.sameSize, dif_pos s.two_le_size, dif_pos s.finite, dif_pos s.ordered]

/-- The first knot. -/
abbrev first (s : Spline α V) : α := getElem s.knots 0 s.size_pos

/-- The last knot. -/
abbrev last (s : Spline α V) : α := getElem s.knots (s.knots.size - 1) s.last_lt

/-- The sample at a knot. -/
abbrev sample (s : Spline α V) (i : Nat) (hi : i < s.knots.size) : V :=
  getElem s.samples i (s.sameSize ▸ hi)

/-- The knots were checked to be finite. -/
theorem isFinite_knot {s : Spline α V} {i : Nat} (hi : i < s.knots.size) :
    Scalar.isFinite s.knots[i] = true :=
  List.all_eq_true.1 s.finite _ (Array.getElem_mem_toList hi)

/-- The search finds a segment. -/
theorem segment_lt (s : Spline α V) (t : α) : s.segment t + 1 < s.knots.size := by
  have hsegment : s.segment t ≤ s.knots.size - 2 := Nat.min_le_right ..
  have htwo := s.two_le_size
  omega

variable [Add V] [Sub V] [HMul V α V]

/-- The cubic of a segment. -/
def piece (s : Spline α V) (i : Nat) (hi : i + 1 < s.knots.size) (t : α) : V :=
  have hs := s.sameSize
  let behind := min (i + 2) (s.knots.size - 1)
  have hb : behind ≤ s.knots.size - 1 := Nat.min_le_right ..
  let scale := 1 - s.tension
  hermite s.knots[i] s.knots[i + 1] s.samples[i] s.samples[i + 1]
    ((s.samples[i + 1] - s.samples[i - 1]) * (scale / (s.knots[i + 1] - s.knots[i - 1])))
    ((s.samples[behind] - s.samples[i]) * (scale / (s.knots[behind] - s.knots[i]))) t

/-- Up to the first knot a spline keeps its first sample, and also where a number has no value. -/
theorem eval_of_below {s : Spline α V} {t : α} (h : Scalar.isNaN t = true ∨ t ≤ s.first) :
    s.eval t = s.sample 0 s.size_pos := by
  unfold eval
  exact if_pos (by rwa [Bool.or_eq_true, decide_eq_true_iff])

/-- Up to the first knot a spline keeps its first sample. -/
theorem eval_of_le {s : Spline α V} {t : α} (h : t ≤ s.first) :
    s.eval t = s.sample 0 s.size_pos :=
  eval_of_below (.inr h)

end

section
variable {α V : Type} [Scalar α] [Scalar.Ordered α] {s : Spline α V} {i j : Nat} {t : α}

/-- A knot has a value, since it is finite. -/
theorem isNaN_knot (hi : i < s.knots.size) : Scalar.isNaN s.knots[i] = false :=
  Scalar.Ordered.isNaN_of_isFinite (isFinite_knot hi)

/-- Earlier knots are less than later ones. -/
theorem knots_lt (hij : i < j) (hj : j < s.knots.size) : s.knots[i] < s.knots[j] := by
  have hvalue : ∀ a ∈ s.knots.toList, Scalar.isNaN a = false := fun a ha =>
    Scalar.Ordered.isNaN_of_isFinite (List.all_eq_true.1 s.finite a ha)
  have hpairwise := (increasing_iff_pairwise_lt hvalue).1 s.ordered
  exact List.pairwise_iff_getElem.1 hpairwise i j (hij.trans hj) hj hij

/-- Earlier knots are at most later ones. -/
theorem knots_le (hij : i ≤ j) (hj : j < s.knots.size) : s.knots[i] ≤ s.knots[j] := by
  rcases hij.eq_or_lt with rfl | hlt
  · exact Scalar.le_self (isNaN_knot hj)
  · exact Scalar.le_of_lt (knots_lt hlt hj)

/-- A spline has two knots or more, so its range is not empty. -/
theorem first_lt_last : s.first < s.last := by
  refine knots_lt ?_ s.last_lt
  have := s.two_le_size
  omega

/-! ## The search -/

/-- A number between the first knot and the last is in a segment. -/
theorem exists_segment (hfirst : s.first ≤ t) (hlast : t < s.last) :
    ∃ i, ∃ hi : i + 1 < s.knots.size, s.knots[i] ≤ t ∧ t < s.knots[i + 1] := by
  by_contra! hnone
  have hvalue : Scalar.isNaN t = false := (Scalar.Ordered.isNaN_of_le hfirst).2
  have hbelow (j : Nat) (hj : j < s.knots.size) : s.knots[j] ≤ t := by
    induction j with
    | zero => exact hfirst
    | succ j ih =>
      have hnot : ¬t < s.knots[j + 1] := hnone j hj (ih (by omega))
      by_contra hle
      exact hnot (Scalar.lt_of_not_ge hvalue (isNaN_knot hj) hle)
  exact Scalar.not_le_of_gt hlast (hbelow _ s.last_lt)

/-- As many knots are up to a number as there are before the next segment. -/
theorem length_takeWhile_knots (hi : i + 1 < s.knots.size) (hlo : s.knots[i] ≤ t)
    (hhi : t < s.knots[i + 1]) :
    (s.knots.toList.takeWhile fun k => decide (k ≤ t)).length = i + 1 :=
  length_takeWhile_le hi
    (fun j hj => Scalar.Ordered.le_trans (knots_le (Nat.le_of_lt_succ hj) (by omega)) hlo)
    (Scalar.not_le_of_gt hhi)

/-- The search finds the segment that a number is in. -/
theorem segment_eq (hi : i + 1 < s.knots.size) (hlo : s.knots[i] ≤ t) (hhi : t < s.knots[i + 1]) :
    s.segment t = i := by
  unfold segment
  rw [length_takeWhile_knots hi hlo hhi]
  omega

/-! ## Values -/

/-- The test for what is below the range fails just for the numbers after the first knot. It is the
form in which a number without a value counts as below. -/
theorem below_iff : (Scalar.isNaN t || decide (t ≤ s.first)) = true ↔ ¬s.first < t := by
  rw [Bool.or_eq_true, decide_eq_true_iff]
  refine ⟨fun hbelow hfirst => ?_, fun hfirst => ?_⟩
  · have hvalue := (Scalar.Ordered.isNaN_of_le (Scalar.le_of_lt hfirst)).2
    exact hbelow.elim (Bool.eq_false_iff.1 hvalue) (Scalar.not_le_of_gt hfirst)
  · by_contra! hnot
    exact hfirst (Scalar.lt_of_not_ge (isNaN_knot s.size_pos) (Bool.eq_false_iff.2 hnot.1) hnot.2)

variable [Add V] [Sub V] [HMul V α V]

/-- From the last knot on a spline keeps its last sample. -/
theorem eval_of_ge (h : s.last ≤ t) : s.eval t = s.sample (s.knots.size - 1) s.last_lt := by
  unfold eval
  rw [if_neg (below_iff.not_left.2 (Scalar.lt_of_lt_of_le first_lt_last h)), if_pos h]

/-- Between the first knot and the last a spline is the cubic of the segment that the search finds.
-/
theorem eval_of_inside (hfirst : s.first < t) (hlast : t < s.last) :
    s.eval t = s.piece (s.segment t) (s.segment_lt t) t := by
  unfold eval
  rw [if_neg (below_iff.not_left.2 hfirst), if_neg (Scalar.not_le_of_gt hlast)]
  rfl

end

/-! ## Exact arithmetic -/

variable {K V : Type} [Field K] [LinearOrder K] [ElementaryFunctions K]

/-- Knots that are strictly increasing have a spline through any samples. -/
theorem exists_ofKnots {knots : Array K} {samples : Array V} (hsize : samples.size = knots.size)
    (htwo : 2 ≤ knots.size) (hordered : knots.toList.Pairwise (· < ·)) (tension : K) :
    ∃ s, ofKnots knots samples tension = .ok s ∧ s.knots = knots ∧ s.samples = samples ∧
      s.tension = tension := by
  have hfinite : knots.toList.all Scalar.isFinite = true := List.all_eq_true.2 fun _ _ => rfl
  have hincreasing : increasing knots.toList = true := increasing_iff_pairwise.2 hordered
  exact ⟨⟨knots, samples, tension, hsize, htwo, hfinite, hincreasing⟩,
    ofKnots_eq_ok_iff.2 ⟨rfl, rfl, rfl⟩, rfl, rfl, rfl⟩

variable {s : Spline K V} {i : Nat} {t : K}

/-- A cubic starts with its first value. -/
theorem hermite_start [Add V] [HMul V K V] [Interpolant K V] (x₁ x₂ : K) (y₁ y₂ m₁ m₂ : V) :
    hermite x₁ x₂ y₁ y₂ m₁ m₂ x₁ = y₁ := by
  simp only [hermite, Exact.ofNat_eq, sub_self, zero_div, mul_zero, zero_mul, add_zero, zero_add,
    Nat.cast_one, Interpolant.one, Interpolant.zero]

/-- A spline runs through its samples. -/
theorem eval_knot [Add V] [Sub V] [HMul V K V] [Interpolant K V] (hi : i < s.knots.size) :
    s.eval s.knots[i] = s.sample i hi := by
  by_cases hfirst : i = 0
  · subst hfirst
    exact eval_of_le le_rfl
  by_cases hlast : i = s.knots.size - 1
  · subst hlast
    exact eval_of_ge le_rfl
  have hnext : i + 1 < s.knots.size := by omega
  have hsegment : s.segment s.knots[i] = i :=
    segment_eq hnext le_rfl (knots_lt i.lt_succ_self hnext)
  rw [eval_of_inside (knots_lt (Nat.pos_of_ne_zero hfirst) hi) (knots_lt (by omega) s.last_lt)]
  simp only [hsegment]
  exact hermite_start ..

/-! ## Samples by number -/

/-- The knots and the samples of a spline are numbered from zero to `last`. -/
structure Numbered (s : Spline K V) (last : Nat) (knot : Nat → K) (value : Nat → V) : Prop where
  knots : s.knots = ((List.range (last + 1)).map knot).toArray
  samples : s.samples = ((List.range (last + 1)).map value).toArray

/-- Two or more strictly increasing knots have a spline. -/
theorem exists_numbered {last : Nat} (hlast : 1 ≤ last) {knot : Nat → K} (hknot : StrictMono knot)
    (value : Nat → V) (tension : K) :
    ∃ s, ofKnots ((List.range (last + 1)).map knot).toArray
        ((List.range (last + 1)).map value).toArray tension = .ok s ∧
      s.Numbered last knot value := by
  have hsize : ((List.range (last + 1)).map value).toArray.size =
      ((List.range (last + 1)).map knot).toArray.size := by simp
  obtain ⟨s, hs, hknots, hsamples, -⟩ :=
    exists_ofKnots hsize (by simpa using hlast) (pairwise_map_range hknot _) tension
  exact ⟨s, hs, hknots, hsamples⟩

namespace Numbered

variable {last : Nat} {knot : Nat → K} {value : Nat → V}

/-- There is one knot more than the number of the last one. -/
theorem size (h : s.Numbered last knot value) : s.knots.size = last + 1 := by
  simp [h.knots]

/-- The knot at a position is the one with that number. -/
theorem getElem_knots (h : s.Numbered last knot value) (hi : i < s.knots.size) :
    s.knots[i] = knot i := by
  simp [h.knots]

/-- The sample at a position is the one with that number. -/
theorem sample_eq (h : s.Numbered last knot value) (hi : i < s.knots.size) :
    s.sample i hi = value i := by
  simp [sample, h.samples]

variable [Add V] [Sub V] [HMul V K V]

/-- Up to the first knot the value is that of number zero. -/
theorem eval_of_le (h : s.Numbered last knot value) (ht : t ≤ knot 0) : s.eval t = value 0 := by
  rw [← h.getElem_knots s.size_pos] at ht
  rw [Spline.eval_of_le ht, h.sample_eq]

/-- From the last knot on the value is that of the last number. -/
theorem eval_of_ge (h : s.Numbered last knot value) (ht : knot last ≤ t) :
    s.eval t = value last := by
  have hlast : s.knots.size - 1 = last := by rw [h.size, Nat.add_sub_cancel]
  rw [← hlast, ← h.getElem_knots s.last_lt] at ht
  rw [Spline.eval_of_ge ht, h.sample_eq, hlast]

/-- At each numbered knot the spline has the value with that number. -/
theorem eval_knot [Interpolant K V] (h : s.Numbered last knot value) (hi : i ≤ last) :
    s.eval (knot i) = value i := by
  have hsize : i < s.knots.size := by
    rw [h.size]
    exact Nat.lt_succ_of_le hi
  rw [← h.getElem_knots hsize, Spline.eval_knot, h.sample_eq]

end Numbered

end Spline

end SurfaceGeometry
