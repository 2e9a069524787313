import PgMetrics.Decimal.Shortest
import PgMetrics.Proofs.Decimal.Rounding

/-! # The shortest decimal reads back

Whatever lies in the interval of a double rounds to that double.  Among the decimals of seventeen
digits one always lies there, as the double has no more than 53 binary ones, so the search ends with
a decimal that reads back.
-/
namespace PgMetrics.Decimal

/-- The interval contains `x`; its ends count if it is closed. -/
def Interval.Contains (i : Interval) (x : ℚ) : Prop :=
  if i.closed then (i.low : ℚ) / i.den ≤ x ∧ x ≤ i.high / i.den
  else (i.low : ℚ) / i.den < x ∧ x < i.high / i.den

namespace Interval

variable {i : Interval} {x : ℚ}

theorem Contains.le (h : i.Contains x) : (i.low : ℚ) / i.den ≤ x ∧ x ≤ i.high / i.den := by
  unfold Contains at h
  split at h
  · exact h
  · exact ⟨h.1.le, h.2.le⟩

theorem Contains.lt (h : i.Contains x) (hopen : i.closed = false) :
    (i.low : ℚ) / i.den < x ∧ x < i.high / i.den := by
  unfold Contains at h
  rwa [hopen, if_neg Bool.false_ne_true] at h

theorem contains_of_holds (hden : 0 < i.den) {p : ℕ} (h : i.holds (p * i.den) = true) :
    i.Contains p := by
  have hpos : (0 : ℚ) < i.den := mod_cast hden
  unfold Contains
  unfold holds at h
  split at h
  · next hclosed =>
    simp only [Bool.and_eq_true, decide_eq_true_eq] at h
    rw [if_pos hclosed, div_le_iff₀ hpos, le_div_iff₀ hpos]
    exact_mod_cast h
  · next hopen =>
    simp only [Bool.and_eq_true, decide_eq_true_eq] at h
    rw [if_neg hopen, div_lt_iff₀ hpos, lt_div_iff₀ hpos]
    exact_mod_cast h

theorem gridPoint?_contains (hden : 0 < i.den) {p : ℕ} (h : i.gridPoint? = some p) :
    i.Contains p := by
  unfold gridPoint? at h
  dsimp only at h
  split at h
  · next hlower =>
    cases h
    exact contains_of_holds hden (Bool.and_eq_true_iff.mp hlower).1
  · split at h
    · next hupper =>
      cases h
      exact contains_of_holds hden hupper
    · cases h

theorem zpow_split {b : ℚ} (hb : b ≠ 0) (e : ℤ) : b ^ e = b ^ e.toNat / b ^ (-e).toNat := by
  have hsplit : e = (e.toNat : ℤ) - (-e).toNat := by omega
  conv_lhs => rw [hsplit]
  rw [zpow_sub₀ hb, zpow_natCast, zpow_natCast]

theorem scale_div (i : Interval) (e : ℤ) (n : ℕ) :
    ((n * 10 ^ e.toNat : ℕ) : ℚ) / (i.den * 10 ^ (-e).toNat : ℕ) = n / i.den * 10 ^ e := by
  rw [zpow_split (by norm_num) e]
  push_cast
  field_simp

theorem scale_contains {e : ℤ} {p : ℕ} (h : (i.scale e).Contains p) :
    i.Contains (p * 10 ^ (-e)) := by
  have hpos : (0 : ℚ) < 10 ^ e := zpow_pos (by norm_num) e
  have hlow (n : ℕ) : (n : ℚ) / i.den * 10 ^ e ≤ p ↔ (n : ℚ) / i.den ≤ p * 10 ^ (-e) := by
    rw [zpow_neg, ← div_eq_mul_inv, le_div_iff₀ hpos]
  have hhigh (n : ℕ) : p ≤ (n : ℚ) / i.den * 10 ^ e ↔ p * 10 ^ (-e) ≤ (n : ℚ) / i.den := by
    rw [zpow_neg, ← div_eq_mul_inv, div_le_iff₀ hpos]
  unfold Contains at h ⊢
  change if i.closed then
      ((i.low * 10 ^ e.toNat : ℕ) : ℚ) / (i.den * 10 ^ (-e).toNat : ℕ) ≤ p ∧
        (p : ℚ) ≤ (i.high * 10 ^ e.toNat : ℕ) / (i.den * 10 ^ (-e).toNat : ℕ)
    else ((i.low * 10 ^ e.toNat : ℕ) : ℚ) / (i.den * 10 ^ (-e).toNat : ℕ) < p ∧
        (p : ℚ) < (i.high * 10 ^ e.toNat : ℕ) / (i.den * 10 ^ (-e).toNat : ℕ) at h
  rw [scale_div, scale_div] at h
  split
  · next hclosed =>
    rw [if_pos hclosed, hlow, hhigh] at h
    exact h
  · next hopen =>
    rw [if_neg hopen, ← not_le, ← not_le, hlow, hhigh, not_le, not_le] at h
    exact h

/-- Scaled so that the first digit has the place `n`, the value has `n` digits. -/
theorem le_scale_value (hden : 0 < i.den) {k : ℤ} {n : ℕ}
    (h : (10 : ℚ) ^ (k - 1) ≤ i.value / i.den) :
    10 ^ n * (i.scale ((n + 1 : ℕ) - k)).den ≤ (i.scale ((n + 1 : ℕ) - k)).value := by
  have hscaled : 0 < (i.scale ((n + 1 : ℕ) - k)).den := Nat.mul_pos hden (Nat.pow_pos (by decide))
  have hpos : (0 : ℚ) < (i.scale ((n + 1 : ℕ) - k)).den := mod_cast hscaled
  have hvalue : ((i.scale ((n + 1 : ℕ) - k)).value : ℚ) / (i.scale ((n + 1 : ℕ) - k)).den =
      i.value / i.den * 10 ^ (((n + 1 : ℕ) : ℤ) - k) := scale_div i _ i.value
  have hcast : ((10 ^ n : ℕ) : ℚ) ≤
      (i.scale ((n + 1 : ℕ) - k)).value / (i.scale ((n + 1 : ℕ) - k)).den := by
    rw [hvalue]
    calc ((10 ^ n : ℕ) : ℚ) = 10 ^ (k - 1) * 10 ^ (((n + 1 : ℕ) : ℤ) - k) := by
          rw [← zpow_add₀ (by norm_num), show k - 1 + (((n + 1 : ℕ) : ℤ) - k) = n by push_cast; ring,
            zpow_natCast]
          push_cast
          rfl
      _ ≤ i.value / i.den * 10 ^ (((n + 1 : ℕ) : ℤ) - k) :=
          mul_le_mul_of_nonneg_right h (zpow_nonneg (by norm_num) _)
  rw [le_div_iff₀ hpos] at hcast
  exact_mod_cast hcast

end Interval

/-- If one of the grids has a point, the search ends with a decimal in the interval. -/
theorem search_contains {i : Interval} (hden : 0 < i.den) {k : ℤ} {d fuel : ℕ}
    (h : ∃ n, d ≤ n ∧ n < d + fuel ∧ (i.scale (n - k)).gridPoint? ≠ none) :
    i.Contains ((search i k d fuel).1 * 10 ^ (search i k d fuel).2) := by
  induction fuel generalizing d with
  | zero =>
    obtain ⟨n, hle, hlt, -⟩ := h
    omega
  | succ fuel ih =>
    unfold search
    cases hpoint : (i.scale (d - k)).gridPoint? with
    | some p =>
      have hscaled : 0 < (i.scale (d - k)).den := Nat.mul_pos hden (Nat.pow_pos (by decide))
      have hcontains := Interval.scale_contains (Interval.gridPoint?_contains hscaled hpoint)
      rwa [neg_sub] at hcontains
    | none =>
      refine ih ?_
      obtain ⟨n, hle, hlt, hne⟩ := h
      refine ⟨n, ?_, by omega, hne⟩
      rcases hle.eq_or_lt with rfl | hlt
      · exact absurd hpoint hne
      · exact hlt

/-- If neither neighbour of the value is in the interval, the grid is wider than the interval. -/
theorem le_den_of_gridPoint? {i : Interval} (hlow : i.low ≤ i.value) (hhigh : i.value < i.high)
    (hden : 0 < i.den) (h : i.gridPoint? = none) : i.high ≤ i.low + i.den := by
  have hbelow : i.value / i.den * i.den ≤ i.value := Nat.div_mul_le_self _ _
  have habove : i.value < (i.value / i.den + 1) * i.den := Nat.lt_mul_of_div_lt (by omega) hden
  unfold Interval.gridPoint? at h
  dsimp only at h
  generalize hn : i.value / i.den = n at hbelow habove h
  rw [Nat.succ_mul] at habove
  split at h
  · cases h
  next hlower =>
  split at h
  · cases h
  next hupper =>
  simp only [hupper, Bool.not_false, Bool.true_or, Bool.and_true] at hlower
  unfold Interval.holds at hlower hupper
  rw [Nat.succ_mul] at hupper
  split at hupper
  · next hclosed =>
    rw [if_pos hclosed] at hlower
    simp only [Bool.and_eq_true, decide_eq_true_eq, not_and, not_le] at hlower hupper
    omega
  · next hopen =>
    rw [if_neg hopen] at hlower
    simp only [Bool.and_eq_true, decide_eq_true_eq, not_and, not_lt] at hlower hupper
    omega

theorem lt_pow_width (n : ℕ) : n < 10 ^ width n :=
  (Nat.length_toDigits_le_iff (by decide) Nat.length_toDigits_pos).mp le_rfl

theorem pow_width_le {n : ℕ} (hn : 0 < n) : 10 ^ (width n - 1) ≤ n := by
  rcases Nat.eq_zero_or_pos (width n - 1) with hzero | hpos
  · rw [hzero]
    exact hn
  · have hwidth : ¬ width n ≤ width n - 1 := by omega
    exact not_lt.mp ((Nat.length_toDigits_le_iff (by decide) hpos).not.mp hwidth)

theorem width_pos (n : ℕ) : 0 < width n := Nat.length_toDigits_pos

theorem pow_magnitude_le {num den : ℕ} (hnum : 0 < num) (hden : 0 < den) :
    (10 : ℚ) ^ (magnitude num den - 1) ≤ num / den := by
  have hpos : (0 : ℚ) < den := mod_cast hden
  unfold magnitude
  dsimp only
  split
  · next hle =>
    have hcast : (den * 10 ^ ((width num : ℤ) - width den).toNat : ℚ) ≤
        num * 10 ^ (-((width num : ℤ) - width den)).toNat := mod_cast hle
    have hdown : (0 : ℚ) < 10 ^ (-((width num : ℤ) - width den)).toNat := by positivity
    rw [add_sub_cancel_right, Interval.zpow_split (by norm_num), div_le_div_iff₀ hdown hpos]
    linarith
  · rw [le_div_iff₀ hpos]
    have hwidth := width_pos num
    have hdigits : (den : ℚ) ≤ 10 ^ width den := mod_cast (lt_pow_width den).le
    calc (10 : ℚ) ^ ((width num : ℤ) - width den - 1) * den
        ≤ 10 ^ ((width num : ℤ) - width den - 1) * 10 ^ width den :=
          mul_le_mul_of_nonneg_left hdigits (zpow_nonneg (by norm_num) _)
      _ = 10 ^ (width num - 1) := by
          rw [← zpow_natCast, ← zpow_natCast, ← zpow_add₀ (by norm_num)]
          congr 1
          omega
      _ ≤ num := mod_cast pow_width_le hnum

/-- Mantissa and exponent of a positive double, and whether the next double below is nearer. -/
structure Normal (m : ℕ) (q : ℤ) (atPower : Bool) : Prop where
  pos : 0 < m
  lt : m < 2 ^ 53
  least : -1074 ≤ q
  normal : 2 ^ 52 ≤ m ∨ q = -1074
  atPower : atPower = true ↔ m = 2 ^ 52 ∧ q ≠ -1074

variable {m : ℕ} {q : ℤ} {atPower : Bool}

theorem ofBinary_den_pos (m : ℕ) (q : ℤ) (atPower : Bool) :
    0 < (Interval.ofBinary m q atPower).den := Nat.pow_pos (by decide)

/-- Seventeen digits suffice: one unit of the last of them is less than what the interval spans. -/
theorem gridPoint?_seventeen (h : Normal m q atPower) :
    ((Interval.ofBinary m q atPower).scale (17 - magnitude (Interval.ofBinary m q atPower).value
      (Interval.ofBinary m q atPower).den)).gridPoint? ≠ none := by
  have hm := h.pos
  have hmlt := h.lt
  have hden := ofBinary_den_pos m q atPower
  obtain ⟨c, hc⟩ : ∃ c, (if atPower then 1 else 2) = c := ⟨_, rfl⟩
  have hcases : c = 1 ∧ m = 2 ^ 52 ∨ c = 2 := by
    cases hpower : atPower with
    | true => exact .inl ⟨by rw [← hc, hpower, if_pos rfl], (h.atPower.mp hpower).1⟩
    | false => exact .inr (by rw [← hc, hpower, if_neg Bool.false_ne_true])
  have hvalue : 0 < (Interval.ofBinary m q atPower).value :=
    Nat.mul_pos (by omega) (Nat.pow_pos (by decide))
  have hmagnitude := pow_magnitude_le hvalue hden
  generalize hk : magnitude (Interval.ofBinary m q atPower).value
    (Interval.ofBinary m q atPower).den = k at hmagnitude
  obtain ⟨w, hw⟩ : ∃ w, Nat.pow 2 (q - 2).toNat * Nat.pow 10 (17 - k).toNat = w := ⟨_, rfl⟩
  have hwpos : 0 < w := hw ▸ Nat.mul_pos (Nat.pow_pos (by decide)) (Nat.pow_pos (by decide))
  have hlow : ((Interval.ofBinary m q atPower).scale (17 - k)).low = 4 * m * w - c * w := by
    rw [← hw, ← hc, ← Nat.sub_mul]
    exact Nat.mul_assoc _ _ _
  have hval : ((Interval.ofBinary m q atPower).scale (17 - k)).value = 4 * m * w := by
    rw [← hw]
    exact Nat.mul_assoc _ _ _
  have hhigh : ((Interval.ofBinary m q atPower).scale (17 - k)).high = 4 * m * w + 2 * w := by
    rw [← hw, ← Nat.add_mul]
    exact Nat.mul_assoc _ _ _
  have hscaled : 0 < ((Interval.ofBinary m q atPower).scale (17 - k)).den :=
    Nat.mul_pos hden (Nat.pow_pos (by decide))
  have hsmall : c * w ≤ 4 * m * w := Nat.mul_le_mul_right w (by omega)
  intro hnone
  have hwide := le_den_of_gridPoint? (by omega) (by omega) hscaled hnone
  have hdigits : 10 ^ 16 * ((Interval.ofBinary m q atPower).scale (17 - k)).den ≤ 4 * m * w :=
    hval ▸ Interval.le_scale_value hden hmagnitude
  have hfine : 10 ^ 16 * (c + 2) * w ≤ 4 * m * w := by
    rw [Nat.mul_assoc, Nat.add_mul]
    omega
  have := Nat.le_of_mul_le_mul_right hfine hwpos
  omega

theorem ofBinary_up_div_den (m : ℕ) (q : ℤ) (atPower : Bool) :
    ((Nat.pow 2 (q - 2).toNat : ℕ) : ℚ) / (Interval.ofBinary m q atPower).den = 2 ^ q / 4 := by
  have hquarter : (2 : ℚ) ^ q / 4 = 2 ^ (q - 2) := by
    rw [zpow_sub₀ two_ne_zero]
    norm_num
  rw [hquarter, Interval.zpow_split two_ne_zero, neg_sub]
  change ((2 ^ (q - 2).toNat : ℕ) : ℚ) / ((2 ^ (2 - q).toNat : ℕ) : ℚ) = _
  push_cast
  rfl

theorem ofBinary_low (h : 0 < m) : ((Interval.ofBinary m q atPower).low : ℚ) /
    (Interval.ofBinary m q atPower).den = (m - (if atPower then 1 / 4 else 1 / 2)) * 2 ^ q := by
  have hup := ofBinary_up_div_den m q atPower
  have hlow : ((Interval.ofBinary m q atPower).low : ℚ) =
      (4 * m - if atPower then 1 else 2) * (Nat.pow 2 (q - 2).toNat : ℕ) := by
    change (((4 * m - if atPower then 1 else 2) * Nat.pow 2 (q - 2).toNat : ℕ) : ℚ) = _
    rw [Nat.cast_mul, Nat.cast_sub (by split <;> omega)]
    push_cast
    rfl
  rw [hlow, mul_div_assoc, hup]
  split <;> ring

theorem ofBinary_high (m : ℕ) (q : ℤ) (atPower : Bool) :
    ((Interval.ofBinary m q atPower).high : ℚ) / (Interval.ofBinary m q atPower).den =
      (m + 1 / 2) * 2 ^ q := by
  have hup := ofBinary_up_div_den m q atPower
  have hhigh : ((Interval.ofBinary m q atPower).high : ℚ) =
      (4 * m + 2) * (Nat.pow 2 (q - 2).toNat : ℕ) := by
    change (((4 * m + 2) * Nat.pow 2 (q - 2).toNat : ℕ) : ℚ) = _
    push_cast
    rfl
  rw [hhigh, mul_div_assoc, hup]
  ring

theorem ofBinary_low_ge (h : 0 < m) (q : ℤ) (atPower : Bool) : (m - 1 / 2) * 2 ^ q ≤
    ((Interval.ofBinary m q atPower).low : ℚ) / (Interval.ofBinary m q atPower).den := by
  rw [ofBinary_low h]
  refine mul_le_mul_of_nonneg_right ?_ (two_zpow_pos q).le
  split <;> linarith

/-- Off the power of two the unit of the interval is that of the double. -/
theorem rounded_of_contains_above (h : Normal m q atPower) {x : ℚ}
    (hx : (Interval.ofBinary m q atPower).Contains x) (hunit : unitOf x = q) :
    rounded x = m * 2 ^ q := by
  have hpos := two_zpow_pos q
  have hge := ofBinary_low_ge h.pos q atPower
  have hm : (1 : ℚ) ≤ m := mod_cast h.pos
  have hlow : (m : ℚ) - 1 / 2 ≤ x / 2 ^ q := (le_div_iff₀ hpos).mpr (hge.trans hx.le.1)
  have hhigh : x / 2 ^ q ≤ m + 1 / 2 := (div_le_iff₀ hpos).mpr (ofBinary_high m q atPower ▸ hx.le.2)
  have hnearest : nearest (x / 2 ^ q) = m := by
    refine nearest_eq (by linarith) hlow hhigh fun hodd => ?_
    have hopen : (Interval.ofBinary m q atPower).closed = false := by
      change (m % 2 == 0) = false
      rw [hodd]
      rfl
    have hstrict := hx.lt hopen
    rw [ofBinary_high] at hstrict
    exact ⟨(lt_div_iff₀ hpos).mpr (hge.trans_lt hstrict.1), (div_lt_iff₀ hpos).mpr hstrict.2⟩
  rw [rounded, hunit, hnearest]

/-- Below a power of two the units are half as large, and the nearest number of them is even. -/
theorem rounded_of_contains_below (hq : -1074 < q) {x : ℚ}
    (hlow : (2 ^ 52 - 1 / 4) * 2 ^ q ≤ x) (hhigh : x < 2 ^ 52 * 2 ^ q) :
    rounded x = 2 ^ 52 * 2 ^ q := by
  have hhalf : (2 : ℚ) ^ q = 2 ^ (q - 1) * 2 := by
    rw [← zpow_add_one₀ two_ne_zero, sub_add_cancel]
  have hpos := two_zpow_pos (q - 1)
  rw [hhalf] at hlow hhigh
  generalize hunit : (2 : ℚ) ^ (q - 1) = unit at *
  have hx : 0 < x := lt_of_lt_of_le (mul_pos (by norm_num) (mul_pos hpos two_pos)) hlow
  have hexponent : unitOf x = q - 1 := by
    refine unitOf_eq hx (by omega) (.inl ?_) ?_
    · rw [zpow_add_ofNat, hunit]
      push_cast
      linarith
    · rw [zpow_add_ofNat, hunit]
      push_cast
      linarith
  have hnearest : nearest (x / unit) = 2 ^ 53 := by
    refine nearest_eq (div_nonneg hx.le hpos.le) ?_ ?_ fun hodd => by cases hodd
    · rw [le_div_iff₀ hpos]
      push_cast
      linarith
    · rw [div_le_iff₀ hpos]
      push_cast
      linarith
  rw [rounded, hexponent, hunit, hnearest, hhalf]
  push_cast
  ring

/-- Whatever lies in the interval of a double rounds to the double. -/
theorem rounded_of_contains (h : Normal m q atPower) {x : ℚ}
    (hx : (Interval.ofBinary m q atPower).Contains x) : rounded x = m * 2 ^ q := by
  have hunit := two_zpow_pos q
  have hm : (1 : ℚ) ≤ m := mod_cast h.pos
  have hmax : (m : ℚ) + 1 ≤ 2 ^ 53 := mod_cast h.lt
  have hge := (ofBinary_low_ge h.pos q atPower).trans hx.le.1
  have hpos : 0 < x := (mul_pos (by linarith) hunit).trans_le hge
  have hnext : x < 2 ^ (q + 53) := by
    rw [zpow_add_ofNat]
    calc x ≤ (m + 1 / 2) * 2 ^ q := ofBinary_high m q atPower ▸ hx.le.2
      _ < (2 ^ 53 : ℕ) * 2 ^ q := mul_lt_mul_of_pos_right (by push_cast; linarith) hunit
  by_cases hbelow : 2 ^ (q + 52) ≤ x ∨ q = -1074
  · exact rounded_of_contains_above h hx (unitOf_eq hpos h.least hbelow hnext)
  · obtain ⟨hlt, hq⟩ := not_or.mp hbelow
    rw [not_le, zpow_add_ofNat] at hlt
    push_cast at hlt
    have hpower : atPower = true := by
      by_contra hne
      have hm₂ : 2 ^ 52 < m := lt_of_le_of_ne (h.normal.resolve_right hq)
        fun heq => hne (h.atPower.mpr ⟨heq.symm, hq⟩)
      have hcast : (2 ^ 52 + 1 : ℚ) ≤ m := mod_cast hm₂
      have hle : (2 ^ 52 : ℚ) * 2 ^ q ≤ (m - 1 / 2) * 2 ^ q :=
        mul_le_mul_of_nonneg_right (by linarith) hunit.le
      linarith
    have hlow := hx.le.1
    rw [ofBinary_low h.pos, if_pos hpower, (h.atPower.mp hpower).1] at hlow
    rw [(h.atPower.mp hpower).1]
    push_cast at hlow ⊢
    exact rounded_of_contains_below (by have := h.least; omega) hlow hlt

/-- The shortest decimal of a double rounds to it. -/
theorem rounded_shortest (h : Normal m q atPower) :
    rounded ((shortest m q atPower).1 * 10 ^ (shortest m q atPower).2) = m * 2 ^ q := by
  refine rounded_of_contains h ?_
  refine search_contains (ofBinary_den_pos m q atPower) ⟨17, by decide, by decide, ?_⟩
  exact gridPoint?_seventeen h

end PgMetrics.Decimal
