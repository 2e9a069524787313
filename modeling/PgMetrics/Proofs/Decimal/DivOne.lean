import PgMetrics.Proofs.Decimal.Numeral

/-! # Dividing by one

A double divided by one is that double again: what a finite one stands for needs no rounding, and
the sign goes through the division on its own.
-/
namespace PgMetrics.Decimal

open Float.Model (Format)
open Float.Model.UnpackedFloat

theorem Holds.rounded_eq {u : Float.Model.UnpackedFloat} {a : ℚ} (h : Holds u a) :
    rounded a = a := by
  cases h with
  | zero => exact rounded_zero
  | @finite m e hpos hlt hleast hnormal =>
    have hx : (0 : ℚ) < m * 2 ^ e := mul_pos (mod_cast hpos) (two_zpow_pos e)
    have hunit : unitOf (m * 2 ^ e) = e := by
      refine unitOf_eq hx hleast (hnormal.imp_left fun hlow => ?_) ?_
      · rw [add_comm, zpow_add₀ two_ne_zero]
        exact mul_le_mul_of_nonneg_right (mod_cast hlow) (two_zpow_pos e).le
      · rw [add_comm, zpow_add₀ two_ne_zero]
        exact mul_lt_mul_of_pos_right (mod_cast hlt) (two_zpow_pos e)
    rw [rounded, hunit, mul_div_cancel_right₀ _ (two_zpow_pos e).ne', nearest_natCast]

/-- Rounding does not look at the sign. -/
theorem roundWithAccuracy_sign {n m : ℕ} {d e : ℤ} {hpos : 0 < n} {accuracy : Accuracy} (s : Sign)
    (h : roundWithAccuracy .binary64 .positive m e accuracy = .finite .positive n d hpos) :
    roundWithAccuracy .binary64 s m e accuracy = .finite s n d hpos := by
  unfold roundWithAccuracy at h ⊢
  dsimp only at h ⊢
  split at h
  · cases h
  next hne =>
  rw [dif_neg hne]
  injection h with _ hm he
  congr

theorem one_holds : Holds (.finite .positive (2 ^ 52) (-52) (by decide)) 1 := by
  have hone : ((2 ^ 52 : ℕ) : ℚ) * 2 ^ (-52 : ℤ) = 1 := by norm_num
  rw [← hone]
  exact .finite (by decide) (by decide) (by decide) (.inl le_rfl)

theorem unpack_div_one (x : Float) :
    div .binary64 x.toModel.unpack (.finite .positive (2 ^ 52) (-52) (by decide)) =
      x.toModel.unpack := by
  cases hx : x.toModel.unpack with
  | notANumber => rfl
  | infinity s => cases s <;> rfl
  | zero s => cases s <;> rfl
  | finite s m e hpos =>
    obtain ⟨hlt, hleast, hnormal⟩ := normal_of_unpack hx
    have hm : Holds (.finite .positive m e hpos) (m * 2 ^ e) := .finite hpos hlt hleast hnormal
    have hquotient := hm.div one_holds one_pos
    rw [div_one, hm.rounded_eq] at hquotient
    have hsame := roundWithAccuracy_sign s (hquotient.unique hm)
    cases s <;> exact hsame

theorem float_div_one (x : Float) : x / 1 = x := by
  have hmodel : (x / 1).toModel = Float.Model.pack x.toModel.unpack := by
    rw [← unpack_div_one]
    rfl
  calc x / 1 = .ofModel (x / 1).toModel := rfl
    _ = .ofModel (.pack x.toModel.unpack) := by rw [hmodel]
    _ = x := Float.ofBits_toBits x

end PgMetrics.Decimal
