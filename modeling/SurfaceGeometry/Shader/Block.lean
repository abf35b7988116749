/-!
# Shader blocks

The source text of a shader that declares parameters as uniforms and defines one function per
named expression, all with the same arguments.
-/

namespace SurfaceGeometry

namespace Shader

/-- An expression of a shader, as text, with the name of the function that returns it. -/
structure Snippet where
  name : String
  body : String
deriving DecidableEq, Repr

namespace Snippet

/-- The definition of a function with the given list of arguments. -/
def definition (signature : String) (s : Snippet) : String :=
  "float " ++ s.name ++ "(" ++ signature ++ ") \x7b return " ++ s.body ++ "; \x7d\n"

end Snippet

/-- A uniform for every parameter, an empty line if there are any, and the functions. -/
def block (snippets : List Snippet) (vars params : List String) : String :=
  let uniforms := String.join (params.map fun p => "uniform float " ++ p ++ ";\n")
  let gap := if params.isEmpty then "" else "\n"
  let signature := String.intercalate ", " (vars.map ("float " ++ ·))
  uniforms ++ gap ++ String.join (snippets.map (Snippet.definition signature))

end Shader

end SurfaceGeometry
