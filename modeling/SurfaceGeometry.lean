import SurfaceGeometry.Document.Reader
import SurfaceGeometry.Document.Record
import SurfaceGeometry.Expr.Printer
import SurfaceGeometry.Parameters.Shelf
import SurfaceGeometry.Scalar.Double
import SurfaceGeometry.Proofs.Traversal
import SurfaceGeometry.Viewer
import SurfaceGeometry.Proofs.Bytecode.Simulation
import SurfaceGeometry.Proofs.Grammar.Parse
import SurfaceGeometry.Proofs.Printer.Doubles
import SurfaceGeometry.Proofs.Shader.Correct
import SurfaceGeometry.Proofs.Symbolic.Rules
import SurfaceGeometry.Proofs.Symbolic.Simplification
import SurfaceGeometry.Proofs.Symbolic.Calculus
import SurfaceGeometry.Proofs.Symbolic.DerivativeRules
import SurfaceGeometry.Proofs.Symbolic.RealCalculus
import SurfaceGeometry.Proofs.Symbolic.Quantity
import SurfaceGeometry.Proofs.Symbolic.Differentiation
import SurfaceGeometry.Proofs.Bytecode.Substitution
import SurfaceGeometry.Proofs.Stencil
import SurfaceGeometry.Proofs.Surface.Artifact
import SurfaceGeometry.Proofs.Surface.Shelved
import SurfaceGeometry.Proofs.Surface.Graph
import SurfaceGeometry.Proofs.Surface.Revolution
import SurfaceGeometry.Proofs.Surface.Coherence
import SurfaceGeometry.Proofs.Geometry.Curvature
import SurfaceGeometry.Proofs.Geometry.Optical
import SurfaceGeometry.Proofs.Geometry.Superposition
import SurfaceGeometry.Proofs.Geometry.BlackHole
import SurfaceGeometry.Proofs.Shader.Coverage
import SurfaceGeometry.Proofs.Parameters.Sharing
import SurfaceGeometry.Proofs.Bytecode.Faults
import SurfaceGeometry.Proofs.Symbolic.Faults
import SurfaceGeometry.Proofs.Grammar.Faults
import SurfaceGeometry.Proofs.Token.Numeral
import SurfaceGeometry.Proofs.Token.Lexeme
import SurfaceGeometry.Proofs.Token.Spacing
import SurfaceGeometry.Proofs.Number.Overflow
import SurfaceGeometry.Proofs.Shader.Finite
import SurfaceGeometry.Proofs.Symbolic.Hereditary
import SurfaceGeometry.Proofs.Symbolic.Closure
import SurfaceGeometry.Proofs.Symbolic.Constants
import SurfaceGeometry.Proofs.Surface.Fallback
import SurfaceGeometry.Proofs.Symbolic.Passes
import SurfaceGeometry.Proofs.Spline.Affine
import SurfaceGeometry.Proofs.Surface.Biquadratic
import SurfaceGeometry.Proofs.Integrator.Carry
import SurfaceGeometry.Proofs.Integrator.Order
import SurfaceGeometry.Proofs.Integrator.Reversal
import SurfaceGeometry.Proofs.Geometry.Polyline
import SurfaceGeometry.Proofs.Geometry.HeightProfile
import SurfaceGeometry.Proofs.Symbolic.Settling
import SurfaceGeometry.Proofs.Symbolic.Substitution
import SurfaceGeometry.Proofs.Geometry.Grid
