import Mathlib

/-! # Moving forward from zero

Zero plus a double is that double again, except that zero plus the negative zero is zero; as numbers
the two are equal.
-/
namespace PgMetrics.Decimal

open Float.Model (Format)
open Float.Model.UnpackedFloat

theorem unpack_zero : (0 : Float).toModel.unpack = .zero .positive := rfl

theorem toModel_zero_add (x : Float) : (0 + x).toModel =
    Float.Model.pack (add Format.binary64 (.zero .positive) x.toModel.unpack) := by
  rw [← unpack_zero]
  rfl

theorem zero_add_eq {x : Float} (h : ∀ s, x.toModel.unpack ≠ .zero s) : 0 + x = x := by
  have hsum : add Format.binary64 (.zero .positive) x.toModel.unpack = x.toModel.unpack := by
    cases hx : x.toModel.unpack with
    | zero s => exact absurd hx (h s)
    | _ => rfl
  have hmodel : (0 + x).toModel = Float.Model.pack x.toModel.unpack := by
    rw [toModel_zero_add, hsum]
  calc 0 + x = .ofModel (0 + x).toModel := rfl
    _ = .ofModel (.pack x.toModel.unpack) := by rw [hmodel]
    _ = x := Float.ofBits_toBits x

/-- Zero and a finite number add up to that number. -/
theorem zero_add_beq {x : Float} (h : x.isFinite = true) : (0 + x == x) = true := by
  by_cases hzero : ∃ s, x.toModel.unpack = .zero s
  · obtain ⟨s, hs⟩ := hzero
    change (0 + x).toModel.unpack.beq x.toModel.unpack = true
    rw [toModel_zero_add, hs]
    cases s <;> rfl
  · rw [zero_add_eq (not_exists.mp hzero), Float.beq_self_iff]
    rintro rfl
    cases h

theorem beq_zero_iff {x : Float} : (x == 0) = true ↔ ∃ s, x.toModel.unpack = .zero s := by
  have hbeq : (x == 0) = x.toModel.unpack.beq (.zero .positive) := rfl
  rw [hbeq, Float.Model.UnpackedFloat.beq]
  cases x.toModel.unpack with
  | zero s => cases s <;> simp [Float.Model.UnpackedFloat.compare]
  | notANumber => simp [Float.Model.UnpackedFloat.compare]
  | infinity s => cases s <;> simp [Float.Model.UnpackedFloat.compare]
  | finite s => cases s <;> simp [Float.Model.UnpackedFloat.compare]

/-- Zero and a zero of either sign add up to zero. -/
theorem zero_add_of_beq_zero {x : Float} (h : (x == 0) = true) : 0 + x = 0 := by
  obtain ⟨s, hs⟩ := beq_zero_iff.mp h
  have hmodel : (0 + x).toModel = Float.Model.pack (.zero .positive) := by
    rw [toModel_zero_add, hs]
    cases s <;> rfl
  calc 0 + x = .ofModel (0 + x).toModel := rfl
    _ = .ofModel (.pack (.zero .positive)) := by rw [hmodel]
    _ = 0 := rfl

end PgMetrics.Decimal
