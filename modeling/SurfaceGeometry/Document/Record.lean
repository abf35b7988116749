import SurfaceGeometry.Document.Value
import SurfaceGeometry.Number.Notation
import SurfaceGeometry.Scalar.Double
import SurfaceGeometry.Surface.Graph
import SurfaceGeometry.Surface.Revolution

/-!
# Records of surfaces

How domains, tangent vectors, segments, partial derivatives, shader texts, profile values and
settings are read from documents and written to them. A record can also be given as the list of
its members. Settings may leave out members, which then have their default values; no other
record may. Nothing beyond the kind of the values is checked.
-/

namespace SurfaceGeometry

namespace Document

/-! ## Numbers and lists of numbers -/

/-- A number, whole or not. -/
def float? : Document → Option Float
  | whole value =>
    let magnitude := Double.ofRatio value.natAbs 1
    some (if value < 0 then -magnitude else magnitude)
  | number value => some value
  | _ => none

/-- A list of exactly two numbers. -/
def pair? (d : Document) : Option (Float × Float) := do
  match ← d.list? with
  | [a, b] => return (← a.float?, ← b.float?)
  | _ => none

/-- Two numbers as a list. -/
def ofPair (a b : Float) : Document := list [number a, number b]

/-- A vector, given as the list of its coordinates. -/
def vec2? (d : Document) : Option (Vec2 Float) := d.pair?.map fun (a, b) => ⟨a, b⟩

/-- A vector as the list of its coordinates. -/
def ofVec2 (v : Vec2 Float) : Document := ofPair v.x v.y

/-- An interval, given as the list of its ends. -/
def interval? (d : Document) : Option (Interval Float) := d.pair?.map fun (a, b) => ⟨a, b⟩

/-- An interval as the list of its ends. -/
def ofInterval (i : Interval Float) : Document := ofPair i.lo i.hi

/-! ## Geometry -/

/-- A domain, given by its intervals. -/
def domain? (d : Document) : Option (Domain Float) := do
  match ← d.allMembers? ["x", "y"] with
  | [x, y] => return ⟨← x.interval?, ← y.interval?⟩
  | _ => none

/-- A domain as the record of its intervals. -/
def ofDomain (d : Domain Float) : Document :=
  record [("x", ofInterval d.x), ("y", ofInterval d.y)]

/-- A tangent vector, given by its position and its velocity. -/
def tangentVector? (d : Document) : Option (TangentVector Float) := do
  match ← d.allMembers? ["pos", "vel"] with
  | [pos, vel] => return ⟨← pos.vec2?, ← vel.vec2?⟩
  | _ => none

/-- A tangent vector as the record of its position and its velocity. -/
def ofTangentVector (s : TangentVector Float) : Document :=
  record [("pos", ofVec2 s.pos), ("vel", ofVec2 s.vel)]

/-- A segment, given by its ends. -/
def segment? (d : Document) : Option (Segment Float) := do
  match ← d.allMembers? ["start", "end"] with
  | [start, finish] => return ⟨← start.vec2?, ← finish.vec2?⟩
  | _ => none

/-- A segment as the record of its ends. -/
def ofSegment (s : Segment Float) : Document :=
  record [("start", ofVec2 s.start), ("end", ofVec2 s.finish)]

/-! ## Partial derivatives, shader texts and profiles -/

/-- The name of a partial derivative, alone or as the only member of a record, with the value
null. -/
def partial? : Document → Option Partial
  | text name => Partial.ofName? name
  | record [(name, null)] => Partial.ofName? name
  | _ => none

/-- A partial derivative as its name. -/
def ofPartial (p : Partial) : Document := text p.name

/-- The names of the members of the texts of a profile, and of its values. -/
def profileNames : List String := ["r", "dr", "ddr", "h", "dh", "ddh"]

/-- The GLSL texts of the functions with the given names. -/
def snippets? (names : List String) (d : Document) : Option (List Shader.Snippet) := do
  let bodies ← (← d.allMembers? names).mapM text?
  return List.zipWith Shader.Snippet.mk names bodies

/-- Shader texts as the record of their bodies by name. -/
def ofSnippets (snippets : List Shader.Snippet) : Document :=
  record (snippets.map fun s => (s.name, text s.body))

/-- The values of a profile, all six of them. -/
def profileJet? (d : Document) : Option (ProfileJet Float) := do
  match ← (← d.allMembers? profileNames).mapM float? with
  | [r, dr, ddr, h, dh, ddh] => return ⟨r, dr, ddr, h, dh, ddh⟩
  | _ => none

/-- The values of a profile as a record. -/
def ofProfileJet (j : ProfileJet Float) : Document :=
  record (List.zip profileNames ([j.r, j.dr, j.ddr, j.h, j.dh, j.ddh].map number))

/-! ## Settings -/

/-- Reads a member that may be missing. -/
def orDefault {β : Type} (value : β) (read : Document → Option β) : Option Document → Option β
  | none => some value
  | some d => read d

/-- Settings of geodesics, with those of `base` where a member is missing. -/
def geodesicSettings? (base : GeodesicSettings Float) (d : Document) :
    Option (GeodesicSettings Float) := do
  match ← d.members? ["step", "max_steps"] with
  | [step, maxSteps] =>
    return ⟨← orDefault base.step float? step, ← orDefault base.maxSteps count? maxSteps⟩
  | _ => none

/-- Settings of transport, with those of `base` where a member is missing. -/
def transportSettings? (base : TransportSettings Float) (d : Document) :
    Option (TransportSettings Float) := do
  match ← d.members? ["steps", "tension"] with
  | [steps, tension] =>
    return ⟨← orDefault base.steps count? steps, ← orDefault base.tension float? tension⟩
  | _ => none

/-- Widths of finite differences, with those of `base` where a member is missing. -/
def differenceSettings? (base : DifferenceSettings Float) (d : Document) :
    Option (DifferenceSettings Float) := do
  match ← d.members? ["native_step", "glsl_step"] with
  | [native, shader] =>
    return ⟨← orDefault base.nativeStep float? native, ← orDefault base.shaderStep float? shader⟩
  | _ => none

/-- Settings of a surface, with the defaults where a member is missing. -/
def surfaceSettings? (d : Document) : Option (SurfaceSettings Float) := do
  let base : SurfaceSettings Float := .default
  match ← d.members? ["geodesic", "transport", "finite_difference"] with
  | [geodesic, transport, difference] =>
    return ⟨← orDefault base.geodesic (geodesicSettings? base.geodesic) geodesic,
      ← orDefault base.transport (transportSettings? base.transport) transport,
      ← orDefault base.difference (differenceSettings? base.difference) difference⟩
  | _ => none

/-- Settings of a surface as a record with all members. -/
def ofSurfaceSettings (s : SurfaceSettings Float) : Document :=
  record [
    ("geodesic", record [("step", number s.geodesic.step),
      ("max_steps", whole s.geodesic.maxSteps)]),
    ("transport", record [("steps", whole s.transport.steps),
      ("tension", number s.transport.tension)]),
    ("finite_difference", record [("native_step", number s.difference.nativeStep),
      ("glsl_step", number s.difference.shaderStep)])]

end Document

end SurfaceGeometry
