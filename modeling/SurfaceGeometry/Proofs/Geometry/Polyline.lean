import SurfaceGeometry.Proofs.Exact.Real
import SurfaceGeometry.Proofs.Number.Ordered
import SurfaceGeometry.Surface.BlackHole
import SurfaceGeometry.Surface.Graph
import SurfaceGeometry.Surface.Revolution

/-!
# Geodesics as parts of orbits

The polyline of a geodesic is the beginning of an orbit: the points of the start and of the states
behind the steps, up to the first state behind a step whose position is outside, or up to the last
step that may be made (`Geodesic.polyline_eq_map_orbit`). Whether the start is outside does not
matter. A position without a value is outside on all three kinds of surfaces. Both hold of doubles,
and of all numbers that are ordered as doubles are.
-/

namespace SurfaceGeometry

namespace Geodesic

section
variable {α : Type} [Scalar α] {p : Patch α} {h : α} {s : TangentVector α} {count m : Nat}

/-- The state of a geodesic behind `k` steps of size `h`. -/
def orbit (p : Patch α) (h : α) (s : TangentVector α) (k : Nat) : TangentVector α :=
  (Verlet.step h p.acceleration)^[k] s

/-- The orbit starts at the state that is given. -/
theorem orbit_zero (p : Patch α) (h : α) (s : TangentVector α) : orbit p h s 0 = s := rfl

/-- The orbit goes on by one step of the integrator. -/
theorem orbit_succ (p : Patch α) (h : α) (s : TangentVector α) (k : Nat) :
    orbit p h s (k + 1) = Verlet.step h p.acceleration (orbit p h s k) :=
  Function.iterate_succ_apply' ..

/-- Up to `count` steps stop behind step `m`: it is the first one with a position outside, if there
is one. -/
structure StopsAt (p : Patch α) (h : α) (s : TangentVector α) (count m : Nat) : Prop where
  le : m ≤ count
  inside : ∀ k, 1 ≤ k → k < m → p.outside (orbit p h s k).pos = false
  outside : m < count → 1 ≤ m ∧ p.outside (orbit p h s m).pos = true

/-- If the first position is inside, the steps stop where those from there do. -/
theorem StopsAt.succ (hinside : p.outside (orbit p h s 1).pos = false)
    (hm : StopsAt p h (Verlet.step h p.acceleration s) count m) :
    StopsAt p h s (count + 1) (m + 1) where
  le := Nat.succ_le_succ hm.le
  inside k hk hkm := by
    obtain ⟨k, rfl⟩ := Nat.exists_eq_add_of_le' hk
    rcases Nat.eq_zero_or_pos k with rfl | hpos
    · exact hinside
    · exact hm.inside k hpos (Nat.lt_of_succ_lt_succ hkm)
  outside hlt := ⟨Nat.le_add_left 1 m, (hm.outside (Nat.lt_of_succ_lt_succ hlt)).2⟩

/-- What a run of steps puts in front of the points that it is given. -/
theorem trace_eq (p : Patch α) (h : α) (count : Nat) (s : TangentVector α)
    (points : List (Vec3 α)) : ∃ m, StopsAt p h s count m ∧ trace p h count s points =
      ((List.range m).map fun k => p.place (orbit p h s (k + 1)).pos).reverse ++ points := by
  induction count generalizing s points with
  | zero => exact ⟨0, ⟨le_rfl, by omega, by omega⟩, rfl⟩
  | succ count ih =>
    have hfirst : orbit p h s 1 = Verlet.step h p.acceleration s := rfl
    rw [trace, ← hfirst]
    by_cases houtside : p.outside (orbit p h s 1).pos = true
    · rw [if_pos houtside]
      exact ⟨1, ⟨by omega, by omega, fun _ => ⟨le_rfl, houtside⟩⟩, rfl⟩
    · rw [if_neg houtside]
      obtain ⟨m, hm, htrace⟩ := ih (orbit p h s 1) (p.place (orbit p h s 1).pos :: points)
      refine ⟨m + 1, hm.succ (Bool.eq_false_iff.2 houtside), ?_⟩
      rw [htrace, List.range_succ_eq_map, List.map_cons, List.reverse_cons, List.append_assoc,
        List.singleton_append, List.map_map]
      rfl

/-- The steps behind which a geodesic may end because the position is outside. -/
def exits (p : Patch α) (settings : GeodesicSettings α) (s : TangentVector α) : Set Nat :=
  {k | 1 ≤ k ∧ k ≤ settings.maxSteps ∧ p.outside (orbit p settings.step s k).pos = true}

/-- A geodesic ends behind the first of these steps, or behind the last step if there are none. -/
structure EndsAt (p : Patch α) (settings : GeodesicSettings α) (s : TangentVector α)
    (m : Nat) : Prop where
  exit : ∀ k, IsLeast (exits p settings s) k → m = k
  full : exits p settings s = ∅ → m = settings.maxSteps

/-- Where a run of steps stops, a geodesic ends: at the first step outside, or behind the last one.
-/
theorem StopsAt.endsAt {settings : GeodesicSettings α}
    (hm : StopsAt p settings.step s settings.maxSteps m) : EndsAt p settings s m := by
  have hexit : m < settings.maxSteps → m ∈ exits p settings s := fun hlt =>
    ⟨(hm.outside hlt).1, hm.le, (hm.outside hlt).2⟩
  constructor
  · intro k ⟨⟨hk, hkmax, houtside⟩, hleast⟩
    rcases lt_trichotomy m k with hlt | heq | hlt
    · exact absurd (hleast (hexit (hlt.trans_le hkmax))) hlt.not_ge
    · exact heq
    · rw [hm.inside k hk hlt] at houtside
      cases houtside
  · intro hempty
    by_contra hne
    have hmem := hexit (lt_of_le_of_ne hm.le hne)
    rw [hempty] at hmem
    exact hmem

/-- A polyline has the places of the orbit, up to where the run stops. -/
theorem polyline_eq (p : Patch α) (settings : GeodesicSettings α) (s : TangentVector α) :
    ∃ m, StopsAt p settings.step s settings.maxSteps m ∧ polyline p settings s =
      (List.range (m + 1)).map fun k => p.place (orbit p settings.step s k).pos := by
  obtain ⟨m, hm, htrace⟩ := trace_eq p settings.step settings.maxSteps s [p.place s.pos]
  refine ⟨m, hm, ?_⟩
  rw [polyline, htrace, List.reverse_append, List.reverse_reverse, List.range_succ_eq_map,
    List.map_cons, List.map_map]
  rfl

end

end Geodesic

/-! ## Positions without a value -/

section
variable {α : Type} [Scalar α] [Scalar.Ordered α]

/-- No range contains a number that is missing, as every comparison with it fails. -/
theorem Interval.contains_of_isNaN {i : Interval α} {a : α} (h : Scalar.isNaN a = true) :
    i.contains a = false := by
  have hle : ¬i.lo ≤ a := fun hle => Bool.eq_false_iff.1 (Scalar.Ordered.isNaN_of_le hle).2 h
  rw [contains, decide_eq_false hle, Bool.false_and]

/-- A position of which a coordinate is missing is outside of the domain. -/
theorem Domain.outside_of_isNaN {d : Domain α} {pos : Vec2 α}
    (h : Scalar.isNaN pos.x = true ∨ Scalar.isNaN pos.y = true) : d.outside pos = true := by
  rw [outside, contains, Bool.not_eq_true']
  rcases h with hx | hy
  · rw [Interval.contains_of_isNaN hx, Bool.false_and]
  · rw [Interval.contains_of_isNaN hy, Bool.and_false]

end

namespace Geodesic

/-- On every surface, from every start and with all settings, a geodesic has the points of the
beginning of its orbit, one for the start and one for each step, up to the step where it ends. -/
theorem polyline_eq_map_orbit {α : Type} [Scalar α] [Scalar.Ordered α] :
    (∀ (p : Patch α) (settings : GeodesicSettings α) (s : TangentVector α),
      ∃ m, EndsAt p settings s m ∧
        polyline p settings s =
          (List.range (m + 1)).map (fun k => p.place (orbit p settings.step s k).pos) ∧
        1 ≤ (polyline p settings s).length ∧
        (polyline p settings s).length ≤ settings.maxSteps + 1 ∧
        ∀ k, 0 < k → k < m → p.outside (orbit p settings.step s k).pos = false) ∧
    (∀ (s : GraphSurface α) (pos : Vec2 α),
      Scalar.isNaN pos.x = true ∨ Scalar.isNaN pos.y = true → s.patch.outside pos = true) ∧
    (∀ (s : RevolutionSurface α) (pos : Vec2 α),
      Scalar.isNaN pos.x = true → s.patch.outside pos = true) ∧
    ∀ (s : BlackHoleSurface α) (pos : Vec2 α),
      Scalar.isNaN pos.x = true → s.patch.outside pos = true := by
  refine ⟨?_, ?_, ?_, ?_⟩
  · intro p settings s
    obtain ⟨m, hm, hpolyline⟩ := polyline_eq p settings s
    have hlength : (polyline p settings s).length = m + 1 := by
      rw [hpolyline, List.length_map, List.length_range]
    exact ⟨m, hm.endsAt, hpolyline, hlength ▸ Nat.le_add_left 1 m, hlength ▸ Nat.succ_le_succ hm.le,
      hm.inside⟩
  · intro s pos hpos
    exact Domain.outside_of_isNaN hpos
  · intro s pos hpos
    exact congrArg not (Interval.contains_of_isNaN hpos)
  · intro s pos hpos
    exact congrArg not (Interval.contains_of_isNaN hpos)

/-- A straight line that leaves a strip of width one at the third step of five, and a radius that is
not a number. -/
theorem polyline_eq_map_orbit_strip :
    let p : Patch ℝ := ⟨fun x y => ⟨x, y, 0⟩, fun pos => !(⟨0, 1⟩ : Interval ℝ).contains pos.x,
      fun _ => ⟨0, 0⟩, fun _ _ => ⟨0, 0⟩, fun _ _ => ⟨0, 0, 1⟩⟩
    polyline p ⟨1 / 2, 5⟩ ⟨⟨0, 0⟩, ⟨1, 0⟩⟩ = [⟨0, 0, 0⟩, ⟨1 / 2, 0, 0⟩, ⟨1, 0, 0⟩, ⟨3 / 2, 0, 0⟩] ∧
      Scalar.isNaN (Scalar.nan : Float) = true ∧
      ∀ s : BlackHoleSurface Float, s.patch.outside ⟨Scalar.nan, 0⟩ = true := by
  intro p
  have hnan : Scalar.isNaN (Scalar.nan : Float) = true := by decide +kernel
  refine ⟨?_, hnan, fun s => polyline_eq_map_orbit.2.2.2 s _ hnan⟩
  obtain ⟨m, hm, hpolyline, -⟩ := (polyline_eq_map_orbit (α := ℝ)).1 p ⟨1 / 2, 5⟩ ⟨⟨0, 0⟩, ⟨1, 0⟩⟩
  have horbit (k : Nat) : orbit p (1 / 2) ⟨⟨0, 0⟩, ⟨1, 0⟩⟩ k = ⟨⟨k / 2, 0⟩, ⟨1, 0⟩⟩ := by
    induction k with
    | zero => simp [orbit_zero]
    | succ k ih =>
      rw [orbit_succ, ih]
      apply TangentVector.ext <;> apply Vec2.ext <;> simp [Verlet.step, p, add_div]
  have houtside (k : Nat) : p.outside (orbit p (1 / 2) ⟨⟨0, 0⟩, ⟨1, 0⟩⟩ k).pos = true ↔ 2 < k := by
    have hlo : (0 : ℝ) ≤ k / 2 := by positivity
    have hhi : (k / 2 : ℝ) ≤ 1 ↔ k ≤ 2 := by
      rw [div_le_one₀ two_pos]
      exact Nat.cast_le_ofNat
    rw [horbit]
    simp only [p, Interval.contains, ge_iff_le, hlo, hhi, decide_true, Bool.true_and,
      Bool.not_eq_true', decide_eq_false_iff_not, not_le]
  have hleast : IsLeast (exits p ⟨1 / 2, 5⟩ ⟨⟨0, 0⟩, ⟨1, 0⟩⟩) 3 :=
    ⟨⟨by decide, by decide, (houtside 3).2 (by decide)⟩, fun k hk => (houtside k).1 hk.2.2⟩
  rw [hpolyline, hm.exit 3 hleast]
  simp only [horbit]
  simp [List.range_succ, Patch.place, p]

end Geodesic

end SurfaceGeometry
