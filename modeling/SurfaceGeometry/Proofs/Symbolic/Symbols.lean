import SurfaceGeometry.Proofs.Symbolic.Hereditary

/-!
# Symbols of derivatives

To have no symbols but given ones is hereditary (`Expr.hereditary_occurrences`), whatever the
constants are. So neither differentiation nor simplification brings a symbol into a tree that was
not there before (`Expr.occurrences_differentiate`).
-/

namespace SurfaceGeometry

namespace Expr

variable {α : Type} {e d u v : Expr α} {name var : String}

/-- The symbols of a call are those of its arguments in turn. -/
theorem occurrences_call (args : List (Expr α)) :
    (call name args).occurrences = args.flatMap occurrences := by
  rw [occurrences, occurrencesAll_eq]

variable [Scalar α]

/-- To have no symbols but the given ones is hereditary, as constants have none. -/
theorem hereditary_occurrences (names : List String) :
    Hereditary fun e : Expr α => e.occurrences ⊆ names where
  zero := List.nil_subset names
  one := List.nil_subset names
  two := List.nil_subset names
  lnTen := List.nil_subset names
  finite _ := List.nil_subset names
  opposite _ := List.nil_subset names
  predecessor _ := List.nil_subset names
  unary := Iff.rfl
  binary := by simp [occurrences]
  call _ := by simp [occurrences_call]
  call₂ _ := by simp [occurrences_call]
  map h hargs := by
    rw [occurrences_call] at h ⊢
    intro name hname
    obtain ⟨_, hmem, hname⟩ := List.mem_flatMap.1 hname
    obtain ⟨arg, harg, rfl⟩ := List.mem_map.1 hmem
    exact hargs arg harg (fun _ hother => h (List.mem_flatMap.2 ⟨arg, harg, hother⟩)) hname

/-- Simplification brings in no symbols. -/
theorem occurrences_simplify (h : name ∈ e.simplify.occurrences) : name ∈ e.occurrences :=
  (hereditary_occurrences e.occurrences).simplify (fun _ => List.nil_subset _)
    (List.Subset.refl e.occurrences) h

/-- By every rule the symbols of the derivative are some of those of the tree. -/
theorem Differentiates.mem_occurrences (h : Differentiates var e d) (hname : name ∈ d.occurrences) :
    name ∈ e.occurrences :=
  (hereditary_occurrences e.occurrences).differentiates h (List.Subset.refl e.occurrences) hname

/-- Differentiation brings in no symbols, and neither does the simplification after it. -/
theorem occurrences_differentiate (h : e.differentiate var = .ok d)
    (hname : name ∈ d.occurrences) : name ∈ e.occurrences := by
  obtain ⟨raw, hraw, rfl⟩ := Outcome.map_eq_ok.1 h
  exact (differentiates_of_derivative hraw).mem_occurrences (occurrences_simplify hname)

end Expr

end SurfaceGeometry
