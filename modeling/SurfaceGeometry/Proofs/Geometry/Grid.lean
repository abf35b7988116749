import SurfaceGeometry.Proofs.Exact.Real
import SurfaceGeometry.Surface.BlackHole
import SurfaceGeometry.Surface.Graph
import SurfaceGeometry.Surface.Revolution

/-!
# Grids

The places of a grid divide a rectangle of the coordinate plane evenly, its edges included, and its
points lie over them row by row (`Patch.Tiles`). A row is a block of as many points as there are
places on the first side, and in a flat list a point is a block of three numbers, so both are read
in the same way: by the number of the block and the place in it (`getElem?_blocks`). In exact
arithmetic the grids of all surfaces are of this kind, with any counts, of which those below two
count as two (`Patch.grids_tile`).
-/

namespace SurfaceGeometry

/-! ## Blocks of one size -/

section
variable {β γ : Type} {f : β → List γ} {n : Nat}

/-- As many blocks as there are entries, each of the same length. -/
theorem length_blocks (hf : ∀ b, (f b).length = n) (xs : List β) :
    (xs.flatMap f).length = xs.length * n := by
  simp [List.length_flatMap, hf]

/-- An entry is found by the number of its block and its place there. -/
theorem getElem?_blocks (hf : ∀ b, (f b).length = n) {i : Nat} (hi : i < n)
    (xs : List β) (j : Nat) :
    (xs.flatMap f)[j * n + i]? = xs[j]?.bind fun b => (f b)[i]? := by
  induction xs generalizing j with
  | nil => rfl
  | cons b xs ih =>
    rw [List.flatMap_cons]
    cases j with
    | zero =>
      rw [Nat.zero_mul, Nat.zero_add, List.getElem?_append_left (hi.trans_eq (hf b).symm)]
      rfl
    | succ j =>
      have hblock : (j + 1) * n + i = (f b).length + (j * n + i) := by
        rw [hf, Nat.succ_mul]
        omega
      rw [hblock, List.getElem?_append_right (Nat.le_add_right _ _), Nat.add_sub_cancel_left, ih]
      rfl

end

namespace Vec3

variable {α : Type} {points : List (Vec3 α)} {k : Nat} {p : Vec3 α}

/-- A flat list has three numbers for every point. -/
theorem length_flatten (points : List (Vec3 α)) : (flatten points).length = 3 * points.length := by
  rw [flatten, length_blocks (n := 3) fun _ => rfl, Nat.mul_comm]

/-- A flat list has the components of a point from three times the number of the point on. -/
theorem getElem?_flatten (hp : points[k]? = some p) {i : Nat} (hi : i < 3) :
    (flatten points)[3 * k + i]? = [p.x, p.y, p.z][i]? := by
  rw [Nat.mul_comm, flatten, getElem?_blocks (n := 3) (fun _ => rfl) hi, hp]
  rfl

end Vec3

/-! ## Places -/

section
variable {K : Type} [Field K]

/-- The place number `i` of `n` that divide a range evenly, its ends included. -/
def Interval.division (range : Interval K) (n i : Nat) : K :=
  range.lo + (range.hi - range.lo) * i / (n - 1)

/-- The first place is the start of the range. -/
theorem Interval.division_first (range : Interval K) (n : Nat) : range.division n 0 = range.lo := by
  rw [division, Nat.cast_zero, mul_zero, zero_div, add_zero]

variable [LinearOrder K] {range : Interval K} {n i : Nat}

/-- A range that is accepted goes from a smaller to a greater number. -/
theorem Interval.lt_of_valid [ElementaryFunctions K] (h : range.valid = true) :
    range.lo < range.hi := by
  have hnot : (!decide (range.hi ≤ range.lo)) = true := (Bool.and_eq_true_iff.1 h).2
  simpa using hnot

variable [IsStrictOrderedRing K]

/-- The last place is the end of the range. With one place only the divisor would be zero, therefore
the two. -/
theorem Interval.division_last (hn : 2 ≤ n) : range.division n (n - 1) = range.hi := by
  have hcast : ((n - 1 : Nat) : K) = n - 1 := Nat.cast_pred (by omega)
  have hsteps : (n : K) - 1 ≠ 0 := by
    rw [← hcast]
    exact Nat.cast_ne_zero.2 (by omega)
  rw [division, hcast, mul_div_cancel_right₀ _ hsteps, add_sub_cancel]

variable [ElementaryFunctions K]

/-- All places are in the range. -/
theorem Interval.contains_division (hrange : range.lo ≤ range.hi) (hi : i < n) :
    range.contains (range.division n i) = true := by
  have hlast : (i : K) ≤ n - 1 := by
    rw [le_sub_iff_add_le]
    exact_mod_cast hi
  have hfirst : (0 : K) ≤ i := Nat.cast_nonneg i
  have hwidth : 0 ≤ range.hi - range.lo := sub_nonneg.2 hrange
  have hlo : 0 ≤ (range.hi - range.lo) * i / (n - 1) :=
    div_nonneg (mul_nonneg hwidth hfirst) (hfirst.trans hlast)
  have hhi : (range.hi - range.lo) * i / (n - 1) ≤ range.hi - range.lo :=
    div_le_of_le_mul₀ (hfirst.trans hlast) hwidth (mul_le_mul_of_nonneg_left hlast hwidth)
  rw [contains, Bool.and_eq_true, decide_eq_true_eq, decide_eq_true_eq, division]
  exact ⟨by linarith, by linarith⟩

/-- The angles of one turn around the axis. -/
noncomputable def wholeTurn : Interval K := ⟨0, Scalar.tau⟩

/-- The double that stands for a whole turn is positive. -/
theorem wholeTurn_le : (wholeTurn : Interval K).lo ≤ wholeTurn.hi := by
  have hparts : (Double.parts (Scalar.tau : Float)).negative = false := by decide +kernel
  have hvalue : 0 ≤ Double.value (Scalar.tau : Float) := by
    rw [Double.value, hparts, if_neg Bool.false_ne_true, one_mul]
    positivity
  show (0 : K) ≤ (Double.value (Scalar.tau : Float) : ℚ)
  exact_mod_cast hvalue

end

/-! ## Grids -/

namespace Patch

/-- A grid has a point for every pair of places. -/
theorem length_grid {α : Type} (embed : α → α → Vec3 α) (first second : Nat → α) (n m : Nat) :
    (grid embed first second n m).length = n * m := by
  rw [grid, length_blocks fun _ => by rw [List.length_map, List.length_range], List.length_range,
    Nat.mul_comm]

/-- The point of a grid at place `i` of row `j`. -/
theorem getElem?_grid {α : Type} (embed : α → α → Vec3 α) (first second : Nat → α) {n m i j : Nat}
    (hi : i < n) (hj : j < m) :
    (grid embed first second n m)[j * n + i]? = some (embed (first i) (second j)) := by
  have hrow (j : Nat) : ((List.range n).map fun i => embed (first i) (second j)).length = n := by
    rw [List.length_map, List.length_range]
  rw [grid, getElem?_blocks hrow hi, List.getElem?_range hj, Option.bind_some, List.getElem?_map,
    List.getElem?_range hi, Option.map_some]

variable {K : Type} [Field K] [LinearOrder K] [ElementaryFunctions K] {n m : Nat}

/-- The places of a grid are those that divide its range evenly. -/
theorem gridCoordinate_eq (range : Interval K) (hn : 2 ≤ n) :
    gridCoordinate range n = range.division n := by
  funext i
  rw [gridCoordinate, Interval.division, Nat.cast_pred (by omega)]
  rfl

/-- The angles of a grid around the axis divide a whole turn evenly, both of its ends included. -/
theorem gridAngle_eq (hn : 2 ≤ n) : (gridAngle n : Nat → K) = wholeTurn.division n := by
  funext j
  rw [gridAngle, Interval.division, Nat.cast_pred (by omega), wholeTurn, zero_add, sub_zero]

variable [IsStrictOrderedRing K] {d : Domain K}

/-- The points of a grid over `n` by `m` places that divide a rectangle evenly, row by row. -/
structure Tiles (embed : K → K → Vec3 K) (d : Domain K) (n m : Nat)
    (points : List (Vec3 K)) : Prop where
  length : points.length = n * m
  point : ∀ j < m, ∀ i < n,
    points[j * n + i]? = some (embed (d.x.division n i) (d.y.division m j))
  inside : ∀ j < m, ∀ i < n, d.contains ⟨d.x.division n i, d.y.division m j⟩ = true
  first : points[0]? = some (embed d.x.lo d.y.lo)
  first_row_end : points[n - 1]? = some (embed d.x.hi d.y.lo)
  last_row_start : points[(m - 1) * n]? = some (embed d.x.lo d.y.hi)
  last : points[n * m - 1]? = some (embed d.x.hi d.y.hi)
  length_flat : (Vec3.flatten points).length = 3 * (n * m)
  components : ∀ k p, points[k]? = some p →
    (Vec3.flatten points)[3 * k]? = some p.x ∧ (Vec3.flatten points)[3 * k + 1]? = some p.y ∧
      (Vec3.flatten points)[3 * k + 2]? = some p.z

/-- A grid that is computed from the places has its corners, and its flat list, where they belong.
-/
theorem tiles_grid (embed : K → K → Vec3 K) (hn : 2 ≤ n) (hm : 2 ≤ m) (hx : d.x.lo ≤ d.x.hi)
    (hy : d.y.lo ≤ d.y.hi) :
    Tiles embed d n m (grid embed (d.x.division n) (d.y.division m) n m) := by
  have hpoint (j : Nat) (hj : j < m) (i : Nat) (hi : i < n) :=
    getElem?_grid embed (d.x.division n) (d.y.division m) hi hj
  have hlastRow : m - 1 < m := by omega
  have hlastPlace : n - 1 < n := by omega
  constructor
  case length => exact length_grid ..
  case point => exact hpoint
  case inside =>
    intro j hj i hi
    rw [Domain.contains, Interval.contains_division hx hi, Interval.contains_division hy hj]
    rfl
  case first => simpa [Interval.division_first] using hpoint 0 (by omega) 0 (by omega)
  case first_row_end =>
    have h := hpoint 0 (by omega) (n - 1) hlastPlace
    rwa [Nat.zero_mul, Nat.zero_add, Interval.division_last hn, Interval.division_first] at h
  case last_row_start =>
    have h := hpoint (m - 1) hlastRow 0 (by omega)
    rwa [Nat.add_zero, Interval.division_last hm, Interval.division_first] at h
  case last =>
    have hlast : (m - 1) * n + (n - 1) = n * m - 1 := by
      obtain ⟨m, rfl⟩ : ∃ k, m = k + 1 := ⟨m - 1, by omega⟩
      rw [Nat.add_sub_cancel, Nat.mul_comm n, Nat.succ_mul]
      omega
    have h := hpoint (m - 1) hlastRow (n - 1) hlastPlace
    rwa [hlast, Interval.division_last hn, Interval.division_last hm] at h
  case length_flat => rw [Vec3.length_flatten, length_grid]
  case components =>
    intro k p hp
    exact ⟨Vec3.getElem?_flatten hp (i := 0) (by decide),
      Vec3.getElem?_flatten hp (i := 1) (by decide), Vec3.getElem?_flatten hp (i := 2) (by decide)⟩

/-- A grid over a rectangle has its points where they belong, with counts below two taken as two. -/
theorem tiles_rectangleGrid (embed : K → K → Vec3 K) (hx : d.x.valid = true) (hy : d.y.valid = true)
    (n m : Nat) : Tiles embed d (max n 2) (max m 2) (rectangleGrid embed d n m) := by
  rw [rectangleGrid, gridCoordinate_eq d.x (le_max_right n 2),
    gridCoordinate_eq d.y (le_max_right m 2)]
  exact tiles_grid embed (le_max_right n 2) (le_max_right m 2) (Interval.lt_of_valid hx).le
    (Interval.lt_of_valid hy).le

/-- A grid around the axis has its points where they belong, with counts below two taken as two. -/
theorem tiles_revolutionGrid (embed : K → K → Vec3 K) {range : Interval K} (h : range.valid = true)
    (n m : Nat) :
    Tiles embed ⟨range, wholeTurn⟩ (max n 2) (max m 2) (revolutionGrid embed range n m) := by
  rw [revolutionGrid, gridCoordinate_eq range (le_max_right n 2), gridAngle_eq (le_max_right m 2)]
  exact tiles_grid embed (le_max_right n 2) (le_max_right m 2)
    (Interval.lt_of_valid h).le wholeTurn_le

/-- The grid of a graph surface divides its domain evenly and has the point of the surface over each
place, and so has every grid around an axis, where the other side of the domain is a whole turn. The
grids of the two surfaces with an axis are such grids over their range. -/
theorem grids_tile (n m : Nat) :
    (∀ s : GraphSurface K, s.domain.x.valid = true → s.domain.y.valid = true →
      Tiles s.patch.embed s.domain (max n 2) (max m 2) (s.grid n m)) ∧
    (∀ (p : Patch K) (range : Interval K), range.valid = true →
      Tiles p.embed ⟨range, wholeTurn⟩ (max n 2) (max m 2) (revolutionGrid p.embed range n m)) ∧
    (∀ s : RevolutionSurface K, s.grid n m = revolutionGrid s.patch.embed s.domain n m) ∧
    ∀ s : BlackHoleSurface K, s.grid n m = revolutionGrid s.patch.embed s.domain n m :=
  ⟨fun s hx hy => tiles_rectangleGrid s.patch.embed hx hy n m,
    fun p _ h => tiles_revolutionGrid p.embed h n m, fun _ => rfl, fun _ => rfl⟩

/-- A saddle over three places by none, which count as two, and a cylinder over three places by
five, of which the seventh is opposite to where the turn begins. -/
theorem grids_tile_saddle :
    let field (code : Bytecode ℝ) (text : String) : Artifact ℝ := ⟨.compiled ⟨code, 2⟩, text⟩
    let saddle : GraphSurface ℝ :=
      { sheet :=
          { source := "x*y"
            base := ⟨.binary .mul (.symbol "x") (.symbol "y"),
              ⟨[.argument 0, .argument 1, .binary .mul], 2⟩, "(x * y)"⟩
            fx := field [.argument 1] "y"
            fy := field [.argument 0] "x"
            fxx := field [.const 0] "0.0"
            fxy := field [.const 1] "1.0"
            fyy := field [.const 0] "0.0" }
        domain := ⟨⟨-1, 1⟩, ⟨0, 3⟩⟩
        parameters := .ofList []
        settings := .default }
    let cylinder : Patch ℝ := ⟨fun u angle => ⟨Real.cos angle, Real.sin angle, u⟩, fun _ => false,
      fun _ => ⟨0, 0⟩, fun _ _ => ⟨0, 0⟩, fun _ angle => ⟨Real.cos angle, Real.sin angle, 0⟩⟩
    saddle.domain.x.valid = true ∧ saddle.domain.y.valid = true ∧
      (saddle.grid 3 0).length = 6 ∧ (saddle.grid 3 0)[4]? = some (saddle.patch.embed 0 3) ∧
      (⟨0, 2⟩ : Interval ℝ).valid = true ∧
      (Vec3.flatten (revolutionGrid cylinder.embed ⟨0, 2⟩ 3 5)).length = 45 ∧
      (Vec3.flatten (revolutionGrid cylinder.embed ⟨0, 2⟩ 3 5))[23]? = some 1 := by
  intro field saddle cylinder
  have hx : saddle.domain.x.valid = true := by simp [saddle, Interval.valid, Scalar.isFinite]
  have hy : saddle.domain.y.valid = true := by simp [saddle, Interval.valid, Scalar.isFinite]
  have hrange : (⟨0, 2⟩ : Interval ℝ).valid = true := by simp [Interval.valid, Scalar.isFinite]
  have hsaddle := (grids_tile 3 0).1 saddle hx hy
  have hcylinder := (grids_tile 3 5).2.1 cylinder ⟨0, 2⟩ hrange
  refine ⟨hx, hy, hsaddle.length, ?_, hrange, hcylinder.length_flat, ?_⟩
  · refine (hsaddle.point 1 (by decide) 1 (by decide)).trans ?_
    norm_num [saddle, Interval.division]
  · refine (hcylinder.components 7 _ (hcylinder.point 2 (by decide) 1 (by decide))).2.2.trans ?_
    norm_num [cylinder, Interval.division]

end Patch

end SurfaceGeometry
