import SurfaceGeometry.Proofs.Geometry.LineElement

/-!
# Surfaces near a point

What geodesics and carried vectors see of a surface at a point (`PointGeometry`), and how this
changes along the curves through the point (`SurfaceGerm`), for each of the three kinds of surfaces.
What is known along a curve is the formula of the surface, computed in dual numbers.

`SurfaceGerm.KeepsInner` says that carried vectors keep their inner product, and
`SurfaceGerm.Autoparallel` that a geodesic carries its own velocity.
-/

namespace SurfaceGeometry

/-- What geodesics and carried vectors see of a surface at a point. -/
structure PointGeometry (α : Type) where
  lineElement : LineElement α
  acceleration : (vel : Vec2 α) → Vec2 α
  transportRate : (vel v : Vec2 α) → Vec2 α

/-- A surface at a point, and along the curves with a given velocity there. -/
structure SurfaceGerm (K : Type) where
  here : PointGeometry K
  along : (vel : Vec2 K) → PointGeometry (DualNumber K)

/-! ## The three kinds of surfaces -/

section
variable {α : Type} [Scalar α]

/-- A graph at a point, by its jet. -/
def GraphJet.geometry (j : GraphJet α) : PointGeometry α :=
  ⟨j.lineElement, j.acceleration, j.transportRate⟩

/-- A surface of revolution at a point, by its jet. -/
def ProfileJet.geometry (j : ProfileJet α) : PointGeometry α :=
  ⟨j.lineElement, j.acceleration, j.transportRate⟩

/-- The surface around a black hole at a position. -/
def Optical.geometry (R : α) (pos : Vec2 α) : PointGeometry α :=
  ⟨lineElement R pos.x, fun vel => acceleration R ⟨pos, vel⟩,
    fun vel => transportRate R ⟨pos, vel⟩⟩

end

variable {P K : Type} [Field K] [LinearOrder K] [ElementaryFunctions K]

/-- A graph along curves: its jet changes by the third derivatives. -/
noncomputable def GraphJet.germ (j : GraphJet K) (third : ThirdPartials K) : SurfaceGerm K :=
  ⟨j.geometry, fun vel => (j.along third vel).geometry⟩

/-- A surface of revolution along curves: its jet changes by the third derivatives of the radius and
of the height. -/
noncomputable def ProfileJet.germ (j : ProfileJet K) (dddr dddh : K) : SurfaceGerm K :=
  ⟨j.geometry, fun vel => (j.along dddr dddh vel).geometry⟩

/-- The Schwarzschild radius does not change along a curve. -/
noncomputable def Optical.germ (R : K) (pos : Vec2 K) : SurfaceGerm K :=
  ⟨geometry R pos, fun vel => geometry (Dual.changing R 0) (pos.moving vel)⟩

/-! ## Carried vectors -/

/-- The rate of carried vectors is linear in the velocity and in the vector, and the same when these
are exchanged. -/
structure SymmetricBilinear (rate : Vec2 K → Vec2 K → Vec2 K) : Prop where
  symm (v w) : rate v w = rate w v
  add (u v w) : rate u (v + w) = rate u v + rate u w
  mul (v w) (s : K) : rate v (w * s) = rate v w * s

namespace SurfaceGerm

/-- The rate of the inner product of two vectors that change at given rates along a curve. -/
noncomputable def innerRate (s : SurfaceGerm K) (vel v v' w w' : Vec2 K) : K :=
  ((s.along vel).lineElement.inner (v.moving v') (w.moving w')).snd

/-- Two vectors that are carried along a curve keep their inner product. -/
def KeepsInner (s : SurfaceGerm K) : Prop :=
  ∀ vel v w, s.innerRate vel v (s.here.transportRate vel v) w (s.here.transportRate vel w) = 0

/-- Whatever the calculus, the inner product of carried vectors has the rate zero along a curve. -/
theorem KeepsInner.hasRate_inner {s : SurfaceGerm K} (h : s.KeepsInner) {R : Rates P K}
    (hR : R.Arithmetic) {vel v w : Vec2 K} {g : P → LineElement K} {q₁ q₂ : P → Vec2 K}
    (hg : LineElement.Follows R g (s.along vel).lineElement)
    (hv : Vec2.Follows R q₁ (v.moving (s.here.transportRate vel v)))
    (hw : Vec2.Follows R q₂ (w.moving (s.here.transportRate vel w))) :
    R.HasRate (fun p => (g p).inner (q₁ p) (q₂ p)) 0 := by
  rw [← h vel v w]
  exact (hg.inner hR hv hw).rate

/-- A geodesic carries its own velocity, which therefore keeps its length. -/
structure Autoparallel (s : SurfaceGerm K) : Prop where
  acceleration_eq (vel) : s.here.acceleration vel = s.here.transportRate vel vel
  keepsSpeed (vel) : s.innerRate vel vel (s.here.acceleration vel) vel (s.here.acceleration vel) = 0
  bilinear : SymmetricBilinear s.here.transportRate

/-- Geodesics carry their own velocity, if their acceleration is the rate of the carried velocity.
They keep their speed because carried vectors keep inner products. -/
theorem KeepsInner.autoparallel {s : SurfaceGerm K} (hinner : s.KeepsInner)
    (hacceleration : ∀ vel, s.here.acceleration vel = s.here.transportRate vel vel)
    (hbilinear : SymmetricBilinear s.here.transportRate) : s.Autoparallel where
  acceleration_eq := hacceleration
  keepsSpeed vel := by
    rw [hacceleration]
    exact hinner vel vel vel
  bilinear := hbilinear

end SurfaceGerm

end SurfaceGeometry
