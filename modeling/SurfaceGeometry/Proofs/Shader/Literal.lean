import SurfaceGeometry.Proofs.Number.Exact
import SurfaceGeometry.Proofs.Shader.Text

/-!
# Doubles as literals of a shader

A finite double without a sign is legible: its shortest digits read back, and so they do with `.0`
behind them when they have no point. As a number of exact arithmetic, the literal of a double with
or without a sign is the number that the double is.
-/

namespace SurfaceGeometry

/-- The digits of a whole number with a point and a zero behind them. -/
theorem Decimal.spells_append_zero {text : List Char} {v : ℚ} (h : Spells text v)
    (hpoint : '.' ∉ text) : Spells (text ++ ['.', '0']) v := by
  obtain ⟨⟨whole, point, rfl, hne, hwhole, hcases⟩, d, hd, hvalue⟩ := h
  rcases hcases with rfl | ⟨digits, rfl, -⟩
  · rw [List.append_nil] at hd ⊢
    rw [ofText?_whole hne hwhole] at hd
    cases hd
    have hspells := @spells_point whole ['0'] hne hwhole (by simp)
    have hten : ((natOfDigits (whole ++ ['0']) : ℚ) * 10 ^ (-(['0'].length : Int))) = v := by
      have hdigit : natOfDigits ['0'] = 0 := rfl
      rw [← hvalue, natOfDigits_append, hdigit, value]
      simp
    rwa [hten] at hspells
  · exact absurd (by simp) hpoint

namespace Shader

/-- A finite double without a sign is legible. -/
theorem legible {x : Float} (h : x.isFinite = true) (hsign : Double.bits x < 2 ^ 63) :
    Legible x := by
  have hspells := Decimal.spells_positional (Double.decimal x)
  rw [← Double.positional_eq h hsign] at hspells
  have htext : Decimal.Spells (magnitudeText x).toList (Double.decimal x).value ∧
      '.' ∈ (magnitudeText x).toList := by
    unfold magnitudeText
    dsimp only
    split
    · next hpoint => exact ⟨hspells, List.contains_iff_mem.1 hpoint⟩
    · next hpoint =>
      rw [String.toList_append]
      refine ⟨Decimal.spells_append_zero hspells fun hmem => hpoint ?_, by simp⟩
      exact List.contains_iff_mem.2 hmem
  obtain ⟨⟨hplain, d, hd, hvalue⟩, hpoint⟩ := htext
  exact ⟨hplain, hpoint, d, hd, Double.ofDecimal_of_value h hsign hvalue⟩

/-- The magnitude of a finite double is legible. -/
theorem legible_abs {x : Float} (h : x.isFinite = true) : Legible x.abs := by
  have hbits := Double.bits_abs h
  exact legible (Double.isFinite_abs h) (by omega)

end Shader

end SurfaceGeometry
