import PgMetrics.Proofs.Decimal.Rounding

/-! # How a mantissa is rounded

The arithmetic of doubles shortens a mantissa to 53 digits and keeps two residual bits of what it
drops.  The two bits are enough: the result is the number that rounding the exact value gives.
-/
namespace PgMetrics.Decimal

open Float.Model (Format totalExponent)
open Float.Model.UnpackedFloat

/-- The mantissa is the integer part of `x`; of the rest the round bit says whether it reaches a
half, and the sticky bit whether it is neither nothing nor a half. -/
structure Covers (em : ExtendedMantissa) (x : ℚ) : Prop where
  le : (em.mantissa : ℚ) ≤ x
  lt : x < em.mantissa + 1
  round : em.roundBit = true ↔ em.mantissa + 1 / 2 ≤ x
  sticky : em.stickyBit = false ↔ x = em.mantissa ∨ x = em.mantissa + 1 / 2

namespace Covers

variable {em : ExtendedMantissa} {x : ℚ}

theorem floor (h : Covers em x) : ⌊x⌋₊ = em.mantissa := by
  have hnonneg : 0 ≤ x := le_trans (Nat.cast_nonneg _) h.le
  exact (Nat.floor_eq_iff hnonneg).mpr ⟨h.le, h.lt⟩

theorem of_fraction {m : ℕ} {t : ℚ} {round sticky : Bool} (hlow : 0 ≤ t) (hhigh : t < 1)
    (hround : round = true ↔ 1 / 2 ≤ t) (hsticky : sticky = false ↔ t = 0 ∨ t = 1 / 2) :
    Covers ⟨m, round, sticky⟩ (m + t) where
  le := le_add_of_nonneg_right hlow
  lt := add_lt_add_of_le_of_lt le_rfl hhigh
  round := by rw [hround, add_le_add_iff_left]
  sticky := by rw [hsticky, add_eq_left, add_right_inj]

theorem exact (m : ℕ) : Covers (.ofMantissaAndAccuracy m .exact) m := by
  have hfraction : Covers ⟨m, false, false⟩ (m + 0) :=
    of_fraction le_rfl one_pos (iff_of_false Bool.false_ne_true (by norm_num))
      (iff_of_true rfl (.inl rfl))
  rwa [add_zero] at hfraction

/-- What follows the integer part is nothing just if both bits are clear. -/
theorem residual (h : Covers em x) :
    (em.roundBit || em.stickyBit) = false ↔ x = em.mantissa := by
  rw [Bool.or_eq_false_iff, h.sticky, ← Bool.not_eq_true, h.round]
  constructor
  · rintro ⟨hround, heq | heq⟩
    · exact heq
    · exact absurd heq.ge hround
  · intro heq
    exact ⟨by linarith, .inl heq⟩

theorem shiftRightOne (h : Covers em x) : Covers em.shiftRightOne (x / 2) := by
  have hle := h.le
  have hlt := h.lt
  have hresidual := h.residual
  have hcases : (em.mantissa : ℚ) = 2 * (em.mantissa / 2 : ℕ) ∧ em.mantissa % 2 = 0 ∨
      (em.mantissa : ℚ) = 2 * (em.mantissa / 2 : ℕ) + 1 ∧ em.mantissa % 2 = 1 := by
    rcases Nat.mod_two_eq_zero_or_one em.mantissa with hmod | hmod
    · have hsplit : em.mantissa = 2 * (em.mantissa / 2) := by omega
      exact .inl ⟨mod_cast hsplit, hmod⟩
    · have hsplit : em.mantissa = 2 * (em.mantissa / 2) + 1 := by omega
      exact .inr ⟨mod_cast hsplit, hmod⟩
  rcases hcases with ⟨hm, hmod⟩ | ⟨hm, hmod⟩
  · refine ⟨?_, ?_, ?_, ?_⟩ <;> dsimp only [ExtendedMantissa.shiftRightOne]
    · linarith
    · linarith
    · simp only [hmod, bne_self_eq_false, Bool.false_eq_true, false_iff, not_le]
      linarith
    · rw [hresidual]
      constructor
      · intro heq
        exact .inl (by linarith)
      · rintro (heq | heq) <;> linarith
  · refine ⟨?_, ?_, ?_, ?_⟩ <;> dsimp only [ExtendedMantissa.shiftRightOne]
    · linarith
    · linarith
    · simp only [hmod, Nat.reduceBNe, true_iff]
      linarith
    · rw [hresidual]
      constructor
      · intro heq
        exact .inr (by linarith)
      · rintro (heq | heq) <;> linarith

theorem shiftRight (h : Covers em x) (n : ℕ) : Covers (em >>> n) (x / 2 ^ n) := by
  change Covers (n.repeat ExtendedMantissa.shiftRightOne em) _
  induction n with
  | zero => simpa [Nat.repeat] using h
  | succ n ih =>
    rw [Nat.repeat, pow_succ, ← div_div]
    exact ih.shiftRightOne

theorem roundedMantissa (h : Covers em x) : em.roundedMantissa = nearest x := by
  have hfloor := h.floor
  have hround := h.round
  have hsticky := h.sticky
  have hresidual := h.residual
  unfold nearest
  rw [hfloor]
  obtain ⟨m, round, sticky⟩ := em
  cases round <;> cases sticky <;>
    simp only [Bool.false_eq_true, Bool.or_self, Bool.or_true, Bool.or_false, reduceCtorEq,
      true_iff, false_iff, not_le, not_or] at hround hsticky hresidual <;>
    simp only [ExtendedMantissa.roundedMantissa, ExtendedMantissa.accuracy,
      Accuracy.roundToNearestEven]
  · rw [if_pos hround]
  · rw [if_pos hround]
  · have htie : x = m + 1 / 2 := hsticky.resolve_left hresidual
    rw [if_neg (by linarith), if_neg (by linarith)]
  · rw [if_neg (by linarith), if_pos (lt_of_le_of_ne hround (Ne.symm hsticky.2))]

end Covers

/-- A finite or zero double of unbounded range in its normal form, and the value it has. -/
inductive Holds : Float.Model.UnpackedFloat → ℚ → Prop
  | zero : Holds (.zero .positive) 0
  | finite {m : ℕ} {e : ℤ} (hpos : 0 < m) (hm : m < 2 ^ 53) (he : -1074 ≤ e)
      (hnormal : 2 ^ 52 ≤ m ∨ e = -1074) : Holds (.finite .positive m e hpos) (m * 2 ^ e)

theorem zpow_log2_le {m : ℕ} (hm : 0 < m) : (2 : ℚ) ^ (m.log2 : ℤ) ≤ m := by
  rw [zpow_natCast]
  exact_mod_cast Nat.log2_self_le hm.ne'

theorem add_one_le_zpow_log2 (m : ℕ) : (m : ℚ) + 1 ≤ 2 ^ (m.log2 + 1 : ℤ) := by
  have hlt : m + 1 ≤ 2 ^ (m.log2 + 1) := Nat.lt_log2_self
  exact_mod_cast hlt

/-- The exponent that the format asks for is that of the unit of the value. -/
theorem targetExponent_eq_unitOf {m : ℕ} {e : ℤ} {x : ℚ} (hx : 0 < x) (hlow : m * 2 ^ e ≤ x)
    (hhigh : x < (m + 1) * 2 ^ e) (he : e ≤ unitOf x) :
    Format.binary64.targetExponent (totalExponent m e) = unitOf x := by
  have htarget : Format.binary64.targetExponent (totalExponent m e) =
      max ((m.log2 : ℤ) + e - 52) (-1074) := by
    simp only [Format.targetExponent, totalExponent, Format.mantissaBits, Format.minExponent]
    norm_num
    omega
  rw [htarget]
  rcases Nat.eq_zero_or_pos m with rfl | hm
  · -- a value below one place of the exponent is below the least unit
    have hsmall : unitOf x = -1074 := by
      by_contra hne
      have hpow : (2 : ℚ) ^ (unitOf x + 52) < 2 ^ e := by
        have hxe : x < 2 ^ e := by simpa using hhigh
        exact (zpow_unitOf_le hx hne).trans_lt hxe
      have := (zpow_lt_zpow_iff_right₀ one_lt_two).mp hpow
      omega
    rw [hsmall] at he ⊢
    simp only [Nat.log2_zero, Nat.cast_zero, zero_add]
    omega
  · have hpow : (2 : ℚ) ^ (m.log2 + e : ℤ) ≤ x := by
      rw [zpow_add₀ two_ne_zero]
      exact (mul_le_mul_of_nonneg_right (zpow_log2_le hm) (two_zpow_pos e).le).trans hlow
    have hnext : x < (2 : ℚ) ^ (m.log2 + e + 1 : ℤ) := by
      rw [add_right_comm, zpow_add₀ two_ne_zero]
      exact hhigh.trans_le
        (mul_le_mul_of_nonneg_right (add_one_le_zpow_log2 m) (two_zpow_pos e).le)
    have hlog : Int.log 2 x = m.log2 + e := by
      have h₁ := (Int.zpow_le_iff_le_log (b := 2) (by decide) hx).mp hpow
      have h₂ := (Int.lt_zpow_iff_log_lt (b := 2) (by decide) hx).mp hnext
      omega
    unfold unitOf
    rw [hlog]

theorem shiftToTargetExponent_of_lt {n : ℕ} {e : ℤ} (hn : n < 2 ^ 53) (he : -1074 ≤ e) :
    shiftToTargetExponent .binary64 n e .exact = (⟨n, false, false⟩, e) := by
  have hlog : n.log2 ≤ 52 := by
    rcases Nat.eq_zero_or_pos n with rfl | hpos
    · decide
    · have := (Nat.log2_lt hpos.ne').mpr hn
      omega
  have htarget : Format.binary64.targetExponent (totalExponent n e) ≤ e := by
    simp only [Format.targetExponent, totalExponent, Format.mantissaBits, Format.minExponent]
    norm_num
    omega
  have hshift : (Format.binary64.targetExponent (totalExponent n e) - e).toNat = 0 := by omega
  unfold shiftToTargetExponent shiftToExponent
  dsimp only
  rw [hshift, Nat.cast_zero, add_zero]
  rfl

theorem shiftToTargetExponent_pow {e : ℤ} (he : -1074 ≤ e) :
    shiftToTargetExponent .binary64 (2 ^ 53) e .exact = (⟨2 ^ 52, false, false⟩, e + 1) := by
  have htarget : Format.binary64.targetExponent (totalExponent (2 ^ 53) e) = e + 1 := by
    simp only [Format.targetExponent, totalExponent, Nat.log2_two_pow, Format.mantissaBits,
      Format.minExponent]
    norm_num
    omega
  have hshift : (e + 1 - e).toNat = 1 := by omega
  unfold shiftToTargetExponent shiftToExponent
  dsimp only
  rw [htarget, hshift]
  rfl

/-- Shortening the mantissa of `x` gives what rounding `x` gives. -/
theorem roundWithAccuracy_holds {m : ℕ} {e : ℤ} {accuracy : Accuracy} {x : ℚ} (hx : 0 < x)
    (he : e ≤ unitOf x) (hcovers : Covers (.ofMantissaAndAccuracy m accuracy) (x / 2 ^ e)) :
    Holds (roundWithAccuracy .binary64 .positive m e accuracy) (rounded x) := by
  have hmantissa : (ExtendedMantissa.ofMantissaAndAccuracy m accuracy).mantissa = m := by
    unfold ExtendedMantissa.ofMantissaAndAccuracy
    split <;> rfl
  have hlow : m * 2 ^ e ≤ x := (le_div_iff₀ (two_zpow_pos e)).mp (hmantissa ▸ hcovers.le)
  have hhigh : x < (m + 1) * 2 ^ e := (div_lt_iff₀ (two_zpow_pos e)).mp (hmantissa ▸ hcovers.lt)
  obtain ⟨n, hn⟩ : ∃ n : ℕ, unitOf x = e + n := ⟨(unitOf x - e).toNat, by omega⟩
  have hshift : (unitOf x - e).toNat = n := by omega
  have hfirst : shiftToTargetExponent .binary64 m e accuracy =
      (ExtendedMantissa.ofMantissaAndAccuracy m accuracy >>> n, unitOf x) := by
    unfold shiftToTargetExponent shiftToExponent
    dsimp only
    rw [targetExponent_eq_unitOf hx hlow hhigh he, hshift, hn]
  have hround : (ExtendedMantissa.ofMantissaAndAccuracy m accuracy >>> n).roundedMantissa =
      nearest (x / 2 ^ unitOf x) := by
    rw [(hcovers.shiftRight n).roundedMantissa, div_div, hn, zpow_add₀ two_ne_zero, zpow_natCast]
  unfold roundWithAccuracy rounded
  rw [hfirst]
  dsimp only
  rw [hround]
  have hunit := le_unitOf x
  have hbound := nearest_div_unit_le x
  have hnormal : 2 ^ 52 ≤ nearest (x / 2 ^ unitOf x) ∨ unitOf x = -1074 :=
    or_iff_not_imp_right.mpr (le_nearest_div_unit hx)
  generalize nearest (x / 2 ^ unitOf x) = digits at hbound hnormal ⊢
  rcases hbound.lt_or_eq with hlt | rfl
  · rw [shiftToTargetExponent_of_lt hlt hunit]
    dsimp only
    split
    · next hzero =>
      rw [hzero, Nat.cast_zero, zero_mul]
      exact .zero
    · next hne => exact .finite (Nat.pos_of_ne_zero hne) hlt hunit hnormal
  · -- one more digit than fits: the last one is zero and goes
    rw [shiftToTargetExponent_pow hunit]
    have hvalue : ((2 ^ 53 : ℕ) : ℚ) * 2 ^ unitOf x = ((2 ^ 52 : ℕ) : ℚ) * 2 ^ (unitOf x + 1) := by
      rw [zpow_add_one₀ two_ne_zero]
      push_cast
      ring
    rw [hvalue]
    exact .finite (m := 2 ^ 52) (by decide) (by decide) (by omega) (.inl le_rfl)

end PgMetrics.Decimal
