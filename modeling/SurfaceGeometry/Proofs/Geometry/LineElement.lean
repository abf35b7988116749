import SurfaceGeometry.Proofs.Exact.Dual
import SurfaceGeometry.Surface.BlackHole
import SurfaceGeometry.Surface.Graph
import SurfaceGeometry.Surface.Revolution

/-!
# Line elements

The inner product of tangent vectors of a surface at a point, by its coefficients in the coordinates
(`LineElement`), for each of the three kinds of surfaces.

`Vec2.moving`, `GraphJet.along` and `ProfileJet.along` add to what is known at a point the rates at
which it changes along a curve, by the chain rule. A formula that is computed from these in dual
numbers is computed together with its derivative along the curve.
-/

namespace SurfaceGeometry

/-- The coefficients of `xx dx² + 2 xy dx dy + yy dy²`. -/
@[ext]
structure LineElement (α : Type) where
  xx : α
  xy : α
  yy : α

namespace LineElement

variable {α : Type} [Scalar α]

/-- The inner product of two tangent vectors. -/
def inner (g : LineElement α) (v w : Vec2 α) : α :=
  g.xx * (v.x * w.x) + g.xy * (v.x * w.y + v.y * w.x) + g.yy * (v.y * w.y)

/-- The determinant of the coefficients. -/
def det (g : LineElement α) : α := g.xx * g.yy - g.xy * g.xy

end LineElement

section
variable {α : Type} [Scalar α]

/-- The identity plus the gradient times itself. -/
def GraphJet.lineElement (j : GraphJet α) : LineElement α :=
  ⟨1 + j.fx * j.fx, j.fx * j.fy, 1 + j.fy * j.fy⟩

/-- The coordinate lines of the two families are orthogonal. -/
def ProfileJet.lineElement (j : ProfileJet α) : LineElement α := ⟨j.speedSquared, 0, j.r * j.r⟩

/-- The line element of the metric of light. -/
def Optical.lineElement (R u : α) : LineElement α := ⟨(metric R u).1, 0, (metric R u).2⟩

end

/-! ## Changes along a curve -/

/-- The partial derivatives of third order of a function of two variables at a point. -/
structure ThirdPartials (α : Type) where
  fxxx : α
  fxxy : α
  fxyy : α
  fyyy : α

variable {P K : Type} [Field K] [LinearOrder K] [ElementaryFunctions K]

/-- A vector that changes at a rate. -/
noncomputable def Vec2.moving (v rate : Vec2 K) : Vec2 (DualNumber K) :=
  ⟨Dual.changing v.x rate.x, Dual.changing v.y rate.y⟩

/-- The components have the values and the rates of dual numbers. -/
structure Vec2.Follows (R : Rates P K) (q : P → Vec2 K) (v : Vec2 (DualNumber K)) : Prop where
  x : R.Follows (fun p => (q p).x) v.x
  y : R.Follows (fun p => (q p).y) v.y

/-- The partial derivatives along a curve with the given velocity. -/
noncomputable def GraphJet.along (j : GraphJet K) (third : ThirdPartials K) (vel : Vec2 K) :
    GraphJet (DualNumber K) where
  fx := Dual.changing j.fx (j.fxx * vel.x + j.fxy * vel.y)
  fy := Dual.changing j.fy (j.fxy * vel.x + j.fyy * vel.y)
  fxx := Dual.changing j.fxx (third.fxxx * vel.x + third.fxxy * vel.y)
  fxy := Dual.changing j.fxy (third.fxxy * vel.x + third.fxyy * vel.y)
  fyy := Dual.changing j.fyy (third.fxyy * vel.x + third.fyyy * vel.y)

/-- The profile along a curve with the given velocity; `dddr` and `dddh` are the derivatives of
third order. -/
noncomputable def ProfileJet.along (j : ProfileJet K) (dddr dddh : K) (vel : Vec2 K) :
    ProfileJet (DualNumber K) where
  r := Dual.changing j.r (j.dr * vel.x)
  dr := Dual.changing j.dr (j.ddr * vel.x)
  ddr := Dual.changing j.ddr (dddr * vel.x)
  h := Dual.changing j.h (j.dh * vel.x)
  dh := Dual.changing j.dh (j.ddh * vel.x)
  ddh := Dual.changing j.ddh (dddh * vel.x)

namespace LineElement

/-- The values of the coefficients. -/
def value (g : LineElement (DualNumber K)) : LineElement K := ⟨g.xx.fst, g.xy.fst, g.yy.fst⟩

/-- The rates of the coefficients. -/
def rate (g : LineElement (DualNumber K)) : LineElement K := ⟨g.xx.snd, g.xy.snd, g.yy.snd⟩

/-- The inner product is symmetric. -/
theorem inner_comm (g : LineElement K) (v w : Vec2 K) : g.inner v w = g.inner w v := by
  unfold inner
  ring

/-- The product rule for inner products. -/
theorem snd_inner_moving (g : LineElement (DualNumber K)) (v v' w w' : Vec2 K) :
    (g.inner (v.moving v') (w.moving w')).snd =
      g.rate.inner v w + g.value.inner v' w + g.value.inner v w' := by
  simp only [inner, Vec2.moving, rate, value, Dual.snd_add, Dual.snd_mul, Dual.fst_add,
    Dual.fst_mul, Dual.fst_changing, Dual.snd_changing]
  ring

/-- The coefficients have the values and the rates of dual numbers. -/
structure Follows (R : Rates P K) (q : P → LineElement K) (g : LineElement (DualNumber K)) :
    Prop where
  xx : R.Follows (fun p => (q p).xx) g.xx
  xy : R.Follows (fun p => (q p).xy) g.xy
  yy : R.Follows (fun p => (q p).yy) g.yy

/-- The inner product of vectors that change along a curve changes as that over dual numbers says,
in any calculus. -/
theorem Follows.inner {R : Rates P K} (hR : R.Arithmetic) {q : P → LineElement K}
    {g : LineElement (DualNumber K)} {q₁ q₂ : P → Vec2 K} {v w : Vec2 (DualNumber K)}
    (hg : Follows R q g) (hv : Vec2.Follows R q₁ v) (hw : Vec2.Follows R q₂ w) :
    R.Follows (fun p => (q p).inner (q₁ p) (q₂ p)) (g.inner v w) := by
  have hmixed := (hv.x.mul hR hw.y).add hR (hv.y.mul hR hw.x)
  exact ((hg.xx.mul hR (hv.x.mul hR hw.x)).add hR (hg.xy.mul hR hmixed)).add hR
    (hg.yy.mul hR (hv.y.mul hR hw.y))

end LineElement

end SurfaceGeometry
