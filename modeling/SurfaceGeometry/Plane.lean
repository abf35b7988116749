import SurfaceGeometry.Scalar.Basic

/-!
# Vectors

Vectors of the coordinate plane and of space, componentwise, and tangent vectors: a point of the
plane together with a velocity there.
-/

namespace SurfaceGeometry

/-- A point or vector of the coordinate plane. -/
@[ext]
structure Vec2 (α : Type) where
  x : α
  y : α
deriving DecidableEq, Repr

/-- A point or vector of space. -/
@[ext]
structure Vec3 (α : Type) where
  x : α
  y : α
  z : α
deriving DecidableEq, Repr

/-- A point of the coordinate plane and a velocity there. -/
@[ext]
structure TangentVector (α : Type) where
  pos : Vec2 α
  vel : Vec2 α
deriving DecidableEq, Repr

namespace Vec2

variable {α : Type}

instance [Add α] : Add (Vec2 α) := ⟨fun u v => ⟨u.x + v.x, u.y + v.y⟩⟩

instance [Sub α] : Sub (Vec2 α) := ⟨fun u v => ⟨u.x - v.x, u.y - v.y⟩⟩

instance [Mul α] : HMul (Vec2 α) α (Vec2 α) := ⟨fun v s => ⟨v.x * s, v.y * s⟩⟩

instance [Div α] : HDiv (Vec2 α) α (Vec2 α) := ⟨fun v s => ⟨v.x / s, v.y / s⟩⟩

@[simp] theorem add_x [Add α] (u v : Vec2 α) : (u + v).x = u.x + v.x := rfl

@[simp] theorem add_y [Add α] (u v : Vec2 α) : (u + v).y = u.y + v.y := rfl

@[simp] theorem mul_x [Mul α] (v : Vec2 α) (s : α) : (v * s).x = v.x * s := rfl

@[simp] theorem mul_y [Mul α] (v : Vec2 α) (s : α) : (v * s).y = v.y * s := rfl

@[simp] theorem div_x [Div α] (v : Vec2 α) (s : α) : (v / s).x = v.x / s := rfl

@[simp] theorem div_y [Div α] (v : Vec2 α) (s : α) : (v / s).y = v.y / s := rfl

end Vec2

namespace Vec3

variable {α : Type}

instance [Sub α] : Sub (Vec3 α) := ⟨fun u v => ⟨u.x - v.x, u.y - v.y, u.z - v.z⟩⟩

instance [Div α] : HDiv (Vec3 α) α (Vec3 α) := ⟨fun v s => ⟨v.x / s, v.y / s, v.z / s⟩⟩

/-- The cross product. -/
def cross [Sub α] [Mul α] (u v : Vec3 α) : Vec3 α :=
  ⟨u.y * v.z - u.z * v.y, u.z * v.x - u.x * v.z, u.x * v.y - u.y * v.x⟩

/-- The vector divided by its length. -/
def normalize [Scalar α] (v : Vec3 α) : Vec3 α :=
  v / Scalar.sqrt (v.x * v.x + v.y * v.y + v.z * v.z)

/-- The components of points, one point after the other. -/
def flatten (points : List (Vec3 α)) : List α :=
  points.flatMap fun p => [p.x, p.y, p.z]

end Vec3

namespace TangentVector

variable {α : Type}

/-- The tangent vector with the given position and velocity. -/
def ofComponents (x y vx vy : α) : TangentVector α := ⟨⟨x, y⟩, ⟨vx, vy⟩⟩

/-- Position and velocity as four numbers. -/
def toList (s : TangentVector α) : List α := [s.pos.x, s.pos.y, s.vel.x, s.vel.y]

end TangentVector

end SurfaceGeometry
