import PgMetrics.Decimal.Reading
import PgMetrics.Proofs.Decimal.Doubles

/-! # The double nearest to a numeral

A numeral of up to 22 places whose digits fit into 53 bits is divided out as two doubles, every
other one in exact arithmetic.  Both ways give the rounded quotient.
-/
namespace PgMetrics.Decimal

open Float.Model (Format totalExponent)
open Float.Model.UnpackedFloat

/-- What a double holds of `x`, the infinite one of all that is too large. -/
def capped (x : ℚ) : ℚ := min (rounded x) limit

theorem capped_zero : capped 0 = 0 := by
  rw [capped, rounded_zero]
  exact min_eq_left (by norm_num [limit])

theorem capped_mono {x y : ℚ} (hx : 0 ≤ x) (h : x ≤ y) : capped x ≤ capped y :=
  min_le_min_right limit (rounded_mono hx h)

/-- The integer quotient, with how the rest compares to half the divisor. -/
theorem Covers.div {n d : ℕ} (hd : 0 < d) :
    Covers (.ofMantissaAndAccuracy (n / d) (accuracyOfFraction (n % d) d)) (n / d : ℚ) := by
  have hpos : (0 : ℚ) < d := mod_cast hd
  have hlt : ((n % d : ℕ) : ℚ) < d := mod_cast Nat.mod_lt n hd
  have hquotient : (n / d : ℚ) = (n / d : ℕ) + (n % d : ℕ) / (d : ℚ) := by
    have hsplit : (n : ℚ) = (n / d : ℕ) * d + (n % d : ℕ) := mod_cast (Nat.div_add_mod' n d).symm
    rw [div_eq_iff hpos.ne', add_mul, div_mul_cancel₀ _ hpos.ne']
    exact hsplit
  rw [hquotient]
  generalize n / d = q
  generalize n % d = r at hlt
  unfold accuracyOfFraction
  split
  · next hr =>
    rw [hr, Nat.cast_zero, zero_div, add_zero]
    exact Covers.exact q
  next hr =>
  have hrest : (0 : ℚ) < r / d := div_pos (mod_cast Nat.pos_of_ne_zero hr) hpos
  have hone : (r / d : ℚ) < 1 := (div_lt_one hpos).mpr hlt
  rcases lt_trichotomy (2 * r) d with hcmp | hcmp | hcmp
  · have hhalf : (r / d : ℚ) < 1 / 2 := by
      rw [div_lt_iff₀ hpos]
      have : (2 * r : ℚ) < d := mod_cast hcmp
      linarith
    rw [compare_lt_iff_lt.mpr hcmp]
    refine .of_fraction hrest.le hone (iff_of_false Bool.false_ne_true hhalf.not_ge) ?_
    exact iff_of_false Bool.true_eq_false.mp (not_or.mpr ⟨hrest.ne', hhalf.ne⟩)
  · have hhalf : (r / d : ℚ) = 1 / 2 := by
      rw [div_eq_iff hpos.ne']
      have : (2 * r : ℚ) = d := mod_cast hcmp
      linarith
    rw [compare_eq_iff_eq.mpr hcmp]
    exact .of_fraction hrest.le hone (iff_of_true rfl hhalf.ge) (iff_of_true rfl (.inr hhalf))
  · have hhalf : 1 / 2 < (r / d : ℚ) := by
      rw [lt_div_iff₀ hpos]
      have : (d : ℚ) < 2 * r := mod_cast hcmp
      linarith
    rw [compare_gt_iff_gt.mpr hcmp]
    refine .of_fraction hrest.le hone (iff_of_true rfl hhalf.le) ?_
    exact iff_of_false Bool.true_eq_false.mp (not_or.mpr ⟨hrest.ne', hhalf.ne'⟩)

theorem targetExponent_le_unitOf {x : ℚ} {t : ℤ} (hx : 0 < x) (h : 2 ^ (t - 1) ≤ x) :
    Format.binary64.targetExponent t ≤ unitOf x := by
  have hlog : t - 1 ≤ Int.log 2 x := (Int.zpow_le_iff_le_log (by decide) hx).mp h
  have htarget : Format.binary64.targetExponent t = max (t - 53) (-1074) := rfl
  rw [htarget]
  exact max_le_max (by omega) le_rfl

/-- A quotient has one digit less than the difference of the digits of its terms, or more. -/
theorem zpow_le_quotient {m n : ℕ} {d e : ℤ} (hm : 0 < m) (hn : 0 < n) :
    (2 : ℚ) ^ (totalExponent m d - totalExponent n e - 1) ≤ m * 2 ^ d / (n * 2 ^ e) := by
  have hden : (0 : ℚ) < n * 2 ^ e := mul_pos (mod_cast hn) (two_zpow_pos e)
  rw [le_div_iff₀ hden]
  calc (2 : ℚ) ^ (totalExponent m d - totalExponent n e - 1) * (n * 2 ^ e)
      ≤ 2 ^ (totalExponent m d - totalExponent n e - 1) * (2 ^ (n.log2 + 1 : ℤ) * 2 ^ e) := by
        have := (lt_add_one (n : ℚ)).le.trans (add_one_le_zpow_log2 n)
        have := two_zpow_pos e
        gcongr
    _ = 2 ^ (m.log2 : ℤ) * 2 ^ d := by
        rw [← zpow_add₀ two_ne_zero, ← zpow_add₀ two_ne_zero, ← zpow_add₀ two_ne_zero]
        congr 1
        unfold totalExponent
        omega
    _ ≤ m * 2 ^ d := mul_le_mul_of_nonneg_right (zpow_log2_le hm) (two_zpow_pos d).le

theorem div_holds {m n : ℕ} {d e : ℤ} (hm : 0 < m) (hn : 0 < n) :
    Holds (div .binary64 (.finite .positive m d hm) (.finite .positive n e hn))
      (rounded (m * 2 ^ d / (n * 2 ^ e))) := by
  have hden : (0 : ℚ) < n * 2 ^ e := mul_pos (mod_cast hn) (two_zpow_pos e)
  have hx : (0 : ℚ) < m * 2 ^ d / (n * 2 ^ e) :=
    div_pos (mul_pos (mod_cast hm) (two_zpow_pos d)) hden
  have htarget := targetExponent_le_unitOf hx (zpow_le_quotient hm hn)
  obtain ⟨s, hs⟩ : ∃ s : ℕ, d - e - min (d - e)
      (Format.binary64.targetExponent (totalExponent m d - totalExponent n e)) = s :=
    ⟨_, (Int.toNat_of_nonneg (by omega)).symm⟩
  have hcore : divCore .binary64 m d n e =
      (m * 2 ^ s / n, d - e - s, accuracyOfFraction (m * 2 ^ s % n) n) := by
    unfold divCore
    dsimp only
    rw [hs, Int.toNat_natCast, Nat.shiftLeft_eq]
    congr 2
    omega
  change Holds (roundWithAccuracy .binary64 .positive (divCore .binary64 m d n e).1
    (divCore .binary64 m d n e).2.1 (divCore .binary64 m d n e).2.2) _
  rw [hcore]
  refine roundWithAccuracy_holds hx (by dsimp only; omega) ?_
  have hshifted : (m * 2 ^ d / (n * 2 ^ e) : ℚ) / 2 ^ (d - e - s) = (m * 2 ^ s : ℕ) / n := by
    rw [zpow_sub₀ two_ne_zero, zpow_sub₀ two_ne_zero, zpow_natCast]
    have := (two_zpow_pos d).ne'
    have := (two_zpow_pos e).ne'
    have : (n : ℚ) ≠ 0 := mod_cast hn.ne'
    push_cast
    field_simp
  dsimp only
  rw [hshifted]
  exact Covers.div hn

theorem Holds.div {u w : Float.Model.UnpackedFloat} {a b : ℚ} (hu : Holds u a) (hw : Holds w b)
    (hb : 0 < b) : Holds (div .binary64 u w) (rounded (a / b)) := by
  cases hw with
  | zero => exact absurd hb (lt_irrefl 0)
  | @finite n e hn =>
    cases hu with
    | zero =>
      rw [zero_div, rounded_zero]
      exact .zero
    | @finite m d hm => exact div_holds hm hn

theorem rounded_natCast {n : ℕ} (hn : n < 2 ^ 53) : rounded n = n := by
  rcases Nat.eq_zero_or_pos n with rfl | hpos
  · exact rounded_zero
  have hunit : unitOf n ≤ 0 := by
    have hlog : Int.log 2 (n : ℚ) < 53 :=
      (Int.lt_zpow_iff_log_lt (by decide) (mod_cast hpos)).mp (by exact_mod_cast hn)
    unfold unitOf
    omega
  obtain ⟨k, hk⟩ : ∃ k : ℕ, unitOf n = -(k : ℤ) := ⟨(-unitOf n).toNat, by omega⟩
  have hwhole : (n : ℚ) / 2 ^ unitOf (n : ℚ) = (n * 2 ^ k : ℕ) := by
    rw [hk, zpow_neg, zpow_natCast, div_inv_eq_mul]
    push_cast
    rfl
  unfold rounded
  rw [hwhole, nearest_natCast, ← hwhole, div_mul_cancel₀ _ (two_zpow_pos _).ne']

theorem ofNat_holds {n : ℕ} (hn : n < 2 ^ 53) : Holds (ofNat .binary64 n) n := by
  rcases Nat.eq_zero_or_pos n with rfl | hpos
  · exact .zero
  have hx : (0 : ℚ) < n := mod_cast hpos
  have hcompare : compare (n : ℤ) 0 = .gt := compare_gt_iff_gt.mpr (mod_cast hpos)
  obtain ⟨s, hs⟩ : ∃ s : ℕ, (0 - Format.binary64.targetExponent (totalExponent n 0)).toNat = s :=
    ⟨_, rfl⟩
  have hround : ofNat .binary64 n =
      roundWithAccuracy .binary64 .positive (n * 2 ^ s) (-s) .exact := by
    change (match compare (n : ℤ) 0 with
      | .lt => Float.Model.UnpackedFloat.round .binary64 .negative (-(n : ℤ)).toNat 0
      | .eq => .zero .positive
      | .gt => Float.Model.UnpackedFloat.round .binary64 .positive (n : ℤ).toNat 0) = _
    rw [hcompare]
    dsimp only
    unfold Float.Model.UnpackedFloat.round decreaseExponent
    dsimp only
    rw [Int.toNat_natCast, hs, Nat.shiftLeft_eq, zero_sub]
  have htarget : Format.binary64.targetExponent (totalExponent n 0) ≤ unitOf n := by
    refine targetExponent_le_unitOf hx ?_
    have hexponent : totalExponent n 0 - 1 = n.log2 := by
      unfold totalExponent
      omega
    rw [hexponent]
    exact zpow_log2_le hpos
  rw [hround, ← rounded_natCast hn]
  refine roundWithAccuracy_holds hx ?_ ?_
  · omega
  · rw [zpow_neg, zpow_natCast, div_inv_eq_mul]
    have hexact := Covers.exact (n * 2 ^ s)
    push_cast at hexact
    exact hexact

def binaryDigits : Float.Model.UnpackedFloat → Option (ℕ × ℤ)
  | .finite .positive m e _ => some (m, e)
  | _ => none

theorem eq_finite_of_binaryDigits {u : Float.Model.UnpackedFloat} {m : ℕ} {e : ℤ}
    (h : binaryDigits u = some (m, e)) : ∃ hpos, u = .finite .positive m e hpos := by
  unfold binaryDigits at h
  split at h
  · cases h
    exact ⟨_, rfl⟩
  · cases h

theorem binaryDigits_powersOfTen : ∀ k : Fin 23,
    binaryDigits (Float.exactlyRepresentablePowersOfTen[k]).toModel.unpack =
      some (5 ^ k.val * 2 ^ (52 - (5 ^ k.val).log2), (k.val + (5 ^ k.val).log2 : ℤ) - 52) := by
  decide

/-- Every power of ten in the table is exact: its odd part has no more than 53 digits. -/
theorem powersOfTen_holds {k : ℕ} (hk : k < Float.exactlyRepresentablePowersOfTen.size) :
    Holds (Float.exactlyRepresentablePowersOfTen[k]).toModel.unpack (10 ^ k) := by
  obtain ⟨hpos, hunpack⟩ := eq_finite_of_binaryDigits (binaryDigits_powersOfTen ⟨k, hk⟩)
  change (Float.exactlyRepresentablePowersOfTen[k]).toModel.unpack = _ at hunpack
  rw [hunpack]
  have hk : k ≤ 22 := Nat.le_of_lt_succ hk
  have hfive : 0 < 5 ^ k := by positivity
  have hlog : (5 ^ k).log2 < 53 := by
    refine (Nat.log2_lt hfive.ne').mpr ?_
    calc 5 ^ k ≤ 5 ^ 22 := Nat.pow_le_pow_right (by decide) hk
      _ < 2 ^ 53 := by decide
  obtain ⟨r, hr⟩ : ∃ r : ℕ, 52 - (5 ^ k).log2 = r := ⟨_, rfl⟩
  have hlow : 2 ^ 52 ≤ 5 ^ k * 2 ^ r := by
    calc 2 ^ 52 = 2 ^ (5 ^ k).log2 * 2 ^ r := by rw [← pow_add]; congr 1; omega
      _ ≤ 5 ^ k * 2 ^ r := Nat.mul_le_mul_right _ (Nat.log2_self_le hfive.ne')
  have hhigh : 5 ^ k * 2 ^ r < 2 ^ 53 := by
    calc 5 ^ k * 2 ^ r < 2 ^ ((5 ^ k).log2 + 1) * 2 ^ r :=
          Nat.mul_lt_mul_of_pos_right Nat.lt_log2_self (by positivity)
      _ = 2 ^ 53 := by rw [← pow_add]; congr 1; omega
  have hexponent : (k + (5 ^ k).log2 : ℤ) - 52 = k - r := by omega
  have hvalue : (10 ^ k : ℚ) = (5 ^ k * 2 ^ r : ℕ) * 2 ^ ((k : ℤ) - r) := by
    rw [zpow_sub₀ two_ne_zero, zpow_natCast, zpow_natCast, show (10 : ℚ) = 5 * 2 by norm_num,
      mul_pow]
    push_cast
    field_simp
  simp only [hr, hexponent, hvalue]
  exact .finite (by omega) hhigh (by omega) (.inl hlow)

theorem natCast_lt_limit {n : ℕ} (hn : n < 2 ^ 53) : (n : ℚ) < limit := by
  have hcast : (n : ℚ) < 2 ^ 53 := mod_cast hn
  exact hcast.trans (pow_lt_pow_right₀ one_lt_two (by decide))

theorem ofScientific_fast {n k : ℕ} (hn : n < 2 ^ 53) (hk : k ≤ 22) :
    Stands (Float.ofScientific n true k) (capped (n / 10 ^ k)) := by
  have hsize : k < Float.exactlyRepresentablePowersOfTen.size := Nat.lt_succ_of_le hk
  have hquotient : Float.ofScientific n true k = .ofModel (.pack (div .binary64
      (Float.Model.pack (ofNat .binary64 n.toUInt64.toNat)).unpack
      (Float.exactlyRepresentablePowersOfTen[k]).toModel.unpack)) := dif_pos ⟨hn, hk⟩
  have hword : n.toUInt64.toNat = n := by
    rw [Nat.toUInt64_eq, UInt64.toNat_ofNat']
    omega
  rw [hquotient, hword, (ofNat_holds hn).unpack_pack (natCast_lt_limit hn)]
  exact ((ofNat_holds hn).div (powersOfTen_holds hsize) (by positivity)).stands

/-- Less than half the least double rounds to zero. -/
theorem rounded_eq_zero {x : ℚ} (hx : 0 < x) (h : x < 2 ^ (-1075 : ℤ)) : rounded x = 0 := by
  have hunit : unitOf x = -1074 := by
    refine unitOf_eq hx le_rfl (.inr rfl) (h.trans_le ?_)
    exact zpow_le_zpow_right₀ one_le_two (by decide)
  have hhalf : x / 2 ^ (-1074 : ℤ) < 1 / 2 := by
    rw [div_lt_iff₀ (two_zpow_pos _)]
    calc x < 2 ^ (-1075 : ℤ) := h
      _ = 1 / 2 * 2 ^ (-1074 : ℤ) := by
        rw [show (-1075 : ℤ) = -1 + -1074 by norm_num, zpow_add₀ two_ne_zero]
        norm_num
  have hnearest : nearest (x / 2 ^ (-1074 : ℤ)) = 0 := by
    have hnonneg := div_nonneg hx.le (two_zpow_pos (-1074)).le
    generalize x / 2 ^ (-1074 : ℤ) = y at hhalf hnonneg
    refine nearest_eq hnonneg ?_ ?_ fun hodd => by cases hodd
    · push_cast
      linarith
    · push_cast
      linarith
  rw [rounded, hunit, hnearest, Nat.cast_zero, zero_mul]

/-- A numeral is too small for a double if it has so many more places than digits. -/
theorem quotient_lt_of_many_places {n k : ℕ} (hk : 2048 + n.log2 < k) :
    (n / 10 ^ k : ℚ) < 2 ^ (-1075 : ℤ) := by
  have hten : (2 : ℚ) ^ (3 * k) ≤ 10 ^ k := by
    rw [pow_mul]
    exact pow_le_pow_left₀ (by norm_num) (by norm_num) k
  rw [div_lt_iff₀ (by positivity)]
  calc (n : ℚ) < 2 ^ (n.log2 + 1 : ℤ) := (lt_add_one _).trans_le (add_one_le_zpow_log2 n)
    _ ≤ 2 ^ (-1075 + (3 * k : ℕ) : ℤ) := zpow_le_zpow_right₀ one_le_two (by push_cast; omega)
    _ = 2 ^ (-1075 : ℤ) * 2 ^ (3 * k) := by rw [zpow_add₀ two_ne_zero, zpow_natCast]
    _ ≤ 2 ^ (-1075 : ℤ) * 10 ^ k := mul_le_mul_of_nonneg_left hten (two_zpow_pos _).le

/-- Rounding to 53 digits after as many have been appended. -/
theorem roundWithAccuracy_shifted {n : ℕ} (hn : 0 < n) :
    Holds (roundWithAccuracy .binary64 .positive (n * 2 ^ 53) (-53) .exact) (rounded n) := by
  have hx : (0 : ℚ) < n := mod_cast hn
  have hunit : -53 ≤ unitOf (n : ℚ) := by
    have hone : (1 : ℚ) ≤ n := mod_cast hn
    have hlog : 0 ≤ Int.log 2 (n : ℚ) :=
      (Int.zpow_le_iff_le_log (by decide) hx).mp (by simpa using hone)
    unfold unitOf
    omega
  refine roundWithAccuracy_holds hx hunit ?_
  have hexact := Covers.exact (n * 2 ^ 53)
  rw [zpow_neg, div_inv_eq_mul]
  push_cast at hexact
  exact hexact

theorem ofScientific_slow (n k : ℕ) :
    Holds (ofScientific .binary64 n (Int.negOfNat k)) (rounded (n / 10 ^ k)) := by
  have hneg : Int.negOfNat k = -(k : ℤ) := Int.negOfNat_eq
  unfold ofScientific
  rw [hneg]
  split
  · next hn =>
    rw [hn, Nat.cast_zero, zero_div, rounded_zero]
    exact .zero
  next hn =>
  have hn : 0 < n := Nat.pos_of_ne_zero hn
  have hx : (0 : ℚ) < n / 10 ^ k := div_pos (mod_cast hn) (by positivity)
  split
  · next hlarge =>
    change (2048 : ℤ) < -k at hlarge
    omega
  split
  · next _ hsmall =>
    change -(k : ℤ) < -(2048 + n.log2) at hsmall
    rw [rounded_eq_zero hx (quotient_lt_of_many_places (by omega))]
    exact .zero
  split
  · next _ _ hwhole =>
    obtain rfl : k = 0 := by omega
    have hproduct :
        n <<< Format.binary64.mantissaBits * 10 ^ (-((0 : ℕ) : ℤ)).toNat = n * 2 ^ 53 := by
      rw [Nat.shiftLeft_eq, Nat.cast_zero, neg_zero, Int.toNat_zero, pow_zero, mul_one]
      rfl
    unfold mul
    dsimp only
    rw [hproduct, pow_zero, div_one]
    exact roundWithAccuracy_shifted hn
  · simp only [neg_neg, Int.toNat_natCast]
    have hquotient : (n / 10 ^ k : ℚ) = n * 2 ^ (0 : ℤ) / ((10 ^ k : ℕ) * 2 ^ (0 : ℤ)) := by
      rw [zpow_zero, mul_one, mul_one]
      push_cast
      rfl
    rw [hquotient]
    exact div_holds hn _

/-- Reading a numeral gives the double nearest to it. -/
theorem ofScientific_stands (n k : ℕ) :
    Stands (Float.ofScientific n true k) (capped (n / 10 ^ k)) := by
  by_cases h : n < 2 ^ 53 ∧ k ≤ 22
  · exact ofScientific_fast h.1 h.2
  · have hslow : Float.ofScientific n true k =
        .ofModel (.pack (ofScientific .binary64 n (Int.negOfNat k))) := dif_neg h
    rw [hslow]
    exact (ofScientific_slow n k).stands

end PgMetrics.Decimal
