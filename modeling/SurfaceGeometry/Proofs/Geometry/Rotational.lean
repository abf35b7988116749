import SurfaceGeometry.Proofs.Geometry.Germ

/-!
# Surfaces with a rotation

A line element `E du² + G dθ²` whose coefficients depend on `u` only determines how vectors are
carried (`RotationalJet.transportRate`), and vectors that are carried so keep their inner products
(`RotationalJet.Describes.keepsInner`). Surfaces of revolution and the surface around a black hole
are of this kind: each has its coefficients (`ProfileJet.rotational`, `Optical.rotational`), and the
formula for its carried vectors is the one that these determine.
-/

namespace SurfaceGeometry

/-- The coefficients of `E du² + G dθ²` at a point, and their derivatives in `u`. -/
@[ext]
structure RotationalJet (K : Type) where
  E : K
  G : K
  dE : K
  dG : K

namespace RotationalJet

section
variable {α : Type} [Scalar α]

/-- The rate of a vector that is carried along a curve with the given velocity. -/
def transportRate (m : RotationalJet α) (vel v : Vec2 α) : Vec2 α :=
  ⟨-(m.dE * vel.x * v.x - m.dG * vel.y * v.y) / (2 * m.E),
    -(m.dG * (vel.x * v.y + vel.y * v.x)) / (2 * m.G)⟩

end

variable {K : Type} [Field K] [LinearOrder K] [ElementaryFunctions K]

/-- The line element along a curve with the given velocity. -/
noncomputable def along (m : RotationalJet K) (vel : Vec2 K) : LineElement (DualNumber K) :=
  ⟨Dual.changing m.E (m.dE * vel.x), Dual.changing 0 0, Dual.changing m.G (m.dG * vel.x)⟩

/-- Carried vectors keep their inner product along every curve: the rates of the coefficients and of
the two vectors cancel. -/
theorem snd_inner_along [IsStrictOrderedRing K] {m : RotationalJet K} (hE : m.E ≠ 0) (hG : m.G ≠ 0)
    (vel v w : Vec2 K) :
    ((m.along vel).inner (v.moving (m.transportRate vel v))
      (w.moving (m.transportRate vel w))).snd = 0 := by
  rw [LineElement.snd_inner_moving]
  simp only [along, LineElement.rate, LineElement.value, LineElement.inner, transportRate,
    Dual.fst_changing, Dual.snd_changing]
  field_simp
  ring

/-- The rate of a carried vector is symmetric and bilinear. -/
theorem bilinear (m : RotationalJet K) : SymmetricBilinear m.transportRate where
  symm v w := by
    unfold transportRate
    congr 1 <;> ring
  add u v w := by
    apply Vec2.ext
    · simp only [transportRate, Vec2.add_x, Vec2.add_y]
      ring
    · simp only [transportRate, Vec2.add_x, Vec2.add_y]
      ring
  mul v w s := by
    apply Vec2.ext
    · simp only [transportRate, Vec2.mul_x, Vec2.mul_y]
      ring
    · simp only [transportRate, Vec2.mul_x, Vec2.mul_y]
      ring

/-- Surfaces with the line element and the carried vectors that belong to the coefficients. -/
structure Describes (m : RotationalJet K) (s : SurfaceGerm K) : Prop where
  lineElement (vel) : (s.along vel).lineElement = m.along vel
  transportRate : s.here.transportRate = m.transportRate

/-- A surface that is described by rotational coefficients keeps inner products where these are not
zero. -/
theorem Describes.keepsInner [IsStrictOrderedRing K] {m : RotationalJet K} {s : SurfaceGerm K}
    (h : m.Describes s) (hE : m.E ≠ 0) (hG : m.G ≠ 0) : s.KeepsInner := by
  intro vel v w
  rw [SurfaceGerm.innerRate, h.lineElement, h.transportRate]
  exact snd_inner_along hE hG vel v w

/-- A surface that is described by rotational coefficients has a bilinear rate. -/
theorem Describes.bilinear {m : RotationalJet K} {s : SurfaceGerm K} (h : m.Describes s) :
    SymmetricBilinear s.here.transportRate := by
  rw [h.transportRate]
  exact m.bilinear

end RotationalJet

variable {K : Type} [Field K] [LinearOrder K] [ElementaryFunctions K]

/-! ## Surfaces of revolution -/

namespace ProfileJet

/-- The coefficients of a surface of revolution: the square of the speed of the profile, and the
square of the distance from the axis. -/
noncomputable def rotational (j : ProfileJet K) : RotationalJet K :=
  ⟨j.speedSquared, j.r * j.r, 2 * (j.dr * j.ddr + j.dh * j.ddh), 2 * (j.r * j.dr)⟩

/-- Along a curve the line element of a surface of revolution changes as its coefficients do. -/
theorem lineElement_along (j : ProfileJet K) (dddr dddh : K) (vel : Vec2 K) :
    (j.along dddr dddh vel).lineElement = j.rotational.along vel := by
  simp only [lineElement, along, speedSquared, rotational, RotationalJet.along]
  congr 1
  · apply TrivSqZeroExt.ext
    · simp
    · simp only [Dual.snd_add, Dual.snd_mul, Dual.fst_changing, Dual.snd_changing]
      ring
  · simp
  · apply TrivSqZeroExt.ext
    · simp
    · simp only [Dual.snd_mul, Dual.fst_changing, Dual.snd_changing]
      ring

/-- Off the axis the carried vectors of a surface of revolution are those that its coefficients
determine. -/
theorem transportRate_eq [IsStrictOrderedRing K] {j : ProfileJet K} (hr : j.r ≠ 0) :
    j.transportRate = j.rotational.transportRate := by
  funext vel v
  simp only [transportRate, rotational, RotationalJet.transportRate]
  congr 1
  · field_simp
    ring
  · field_simp

/-- Off the axis a surface of revolution is described by its coefficients. -/
theorem describes_rotational [IsStrictOrderedRing K] {j : ProfileJet K} (hr : j.r ≠ 0)
    (dddr dddh : K) : j.rotational.Describes (j.germ dddr dddh) where
  lineElement := j.lineElement_along dddr dddh
  transportRate := transportRate_eq hr

/-- The acceleration of a geodesic on a surface of revolution is the rate of its own carried
velocity. -/
theorem acceleration_eq_transportRate (j : ProfileJet K) (vel : Vec2 K) :
    j.acceleration vel = j.transportRate vel vel := by
  simp only [acceleration, transportRate, Exact.ofNat_eq]
  congr 1
  · ring
  · push_cast
    ring

end ProfileJet

/-! ## Black holes -/

namespace Optical

/-- The coefficients of the metric around a black hole. -/
noncomputable def rotational (R u : K) : RotationalJet K :=
  ⟨u ^ 2 / (u - R) ^ 2, u ^ 3 / (u - R), -(2 * R * u) / (u - R) ^ 3,
    u ^ 2 * (2 * u - 3 * R) / (u - R) ^ 2⟩

/-- Along a curve the metric around a black hole changes as its coefficients do. -/
theorem lineElement_along {R : K} {pos : Vec2 K} (hR : pos.x ≠ R) (vel : Vec2 K) :
    lineElement (Dual.changing R 0) (pos.moving vel).x = (rotational R pos.x).along vel := by
  have hR : pos.x - R ≠ 0 := sub_ne_zero.2 hR
  simp only [lineElement, metric, Vec2.moving, rotational, RotationalJet.along]
  congr 1
  · apply TrivSqZeroExt.ext
    · simp only [Dual.fst_div, Dual.fst_mul, Dual.fst_sub, Dual.fst_changing]
      ring
    · simp only [Dual.snd_div, Dual.fst_mul, Dual.snd_mul, Dual.fst_sub, Dual.snd_sub,
        Dual.fst_changing, Dual.snd_changing]
      field_simp
      ring
  · simp
  · apply TrivSqZeroExt.ext
    · simp only [Dual.fst_div, Dual.fst_mul, Dual.fst_sub, Dual.fst_changing]
      ring
    · simp only [Dual.snd_div, Dual.fst_mul, Dual.snd_mul, Dual.fst_sub, Dual.snd_sub,
        Dual.fst_changing, Dual.snd_changing]
      field_simp
      ring

/-- Around a black hole the carried vectors are those that the coefficients determine, except at the
centre and on the horizon. -/
theorem transportRate_eq [IsStrictOrderedRing K] {R : K} {pos : Vec2 K} (h0 : pos.x ≠ 0)
    (hR : pos.x ≠ R) :
    (fun vel => transportRate R ⟨pos, vel⟩) = (rotational R pos.x).transportRate := by
  -- One coefficient divides by `R - u`, the others by `u - R`.
  have hR : pos.x - R ≠ 0 := sub_ne_zero.2 hR
  have hR' : R - pos.x ≠ 0 := by rwa [← neg_sub, neg_ne_zero] at hR
  funext vel v
  simp only [transportRate, rotational, RotationalJet.transportRate]
  simp only [Exact.ofNat_eq, Exact.ofScientific_eq]
  push_cast
  congr 1
  · field_simp
    ring
  · field_simp

/-- Around a black hole the surface is described by its coefficients, except at the centre and on
the horizon. -/
theorem describes_rotational [IsStrictOrderedRing K] {R : K} {pos : Vec2 K} (h0 : pos.x ≠ 0)
    (hR : pos.x ≠ R) : (rotational R pos.x).Describes (germ R pos) where
  lineElement := lineElement_along hR
  transportRate := transportRate_eq h0 hR

/-- The acceleration of light is the rate of its own carried velocity. -/
theorem acceleration_eq_transportRate [IsStrictOrderedRing K] {R : K} {pos : Vec2 K}
    (h0 : pos.x ≠ 0) (hR : pos.x ≠ R) (vel : Vec2 K) :
    acceleration R ⟨pos, vel⟩ = transportRate R ⟨pos, vel⟩ vel := by
  have hR : pos.x - R ≠ 0 := sub_ne_zero.2 hR
  have hR' : R - pos.x ≠ 0 := by rwa [← neg_sub, neg_ne_zero] at hR
  simp only [acceleration, transportRate, Exact.ofNat_eq, Exact.ofScientific_eq]
  push_cast
  congr 1
  · field_simp
    ring
  · field_simp
    ring

end Optical

end SurfaceGeometry
