import Mathlib

/-! # Rounding to 53 binary digits

What a double can hold of a nonnegative rational: a natural number of units, the unit being the
power of two that leaves 53 digits, and never less than `2^-1074`.  Rounding takes the nearest
number of units, the even one of two equally near.  It never turns the order around, and it keeps
decimals of fifteen digits apart.
-/
namespace PgMetrics.Decimal

/-- The natural number nearest to `x`, of two equally near the even one. -/
def nearest (x : ℚ) : ℕ :=
  if x < ⌊x⌋₊ + 1 / 2 then ⌊x⌋₊
  else if ⌊x⌋₊ + 1 / 2 < x then ⌊x⌋₊ + 1
  else ⌊x⌋₊ + ⌊x⌋₊ % 2

theorem nearest_natCast (n : ℕ) : nearest n = n := by
  simp [nearest]

theorem floor_le_nearest (x : ℚ) : ⌊x⌋₊ ≤ nearest x := by
  unfold nearest
  split_ifs <;> omega

theorem nearest_le_floor_succ (x : ℚ) : nearest x ≤ ⌊x⌋₊ + 1 := by
  unfold nearest
  split_ifs <;> omega

theorem nearest_mono {x y : ℚ} (h : x ≤ y) : nearest x ≤ nearest y := by
  rcases (Nat.floor_mono h).lt_or_eq with hlt | heq
  · have hx := nearest_le_floor_succ x
    have hy := floor_le_nearest y
    omega
  · -- over one natural number the three cases come in the order of their answers
    unfold nearest
    rw [heq]
    split_ifs <;> first | omega | (exfalso; linarith)

theorem le_nearest {n : ℕ} {x : ℚ} (h : (n : ℚ) ≤ x) : n ≤ nearest x :=
  nearest_natCast n ▸ nearest_mono h

theorem nearest_le {n : ℕ} {x : ℚ} (h : x ≤ n) : nearest x ≤ n :=
  nearest_natCast n ▸ nearest_mono h

theorem nearest_close {x : ℚ} (hx : 0 ≤ x) : |(nearest x : ℚ) - x| ≤ 1 / 2 := by
  have hlow := Nat.floor_le hx
  have hhigh := Nat.lt_floor_add_one x
  unfold nearest
  rw [abs_le]
  split_ifs with hlt hgt
  · constructor <;> linarith
  · push_cast
    constructor <;> linarith
  · rcases Nat.mod_two_eq_zero_or_one ⌊x⌋₊ with hmod | hmod <;>
    · rw [hmod]
      push_cast
      constructor <;> linarith

/-- A natural number is the nearest one to everything less than a half away, and to what is a half
away if it is even. -/
theorem nearest_eq {n : ℕ} {x : ℚ} (hx : 0 ≤ x) (hlow : (n : ℚ) - 1 / 2 ≤ x)
    (hhigh : x ≤ n + 1 / 2) (htie : n % 2 = 1 → (n : ℚ) - 1 / 2 < x ∧ x < n + 1 / 2) :
    nearest x = n := by
  have hfloor := Nat.floor_le hx
  have hnext := Nat.lt_floor_add_one x
  rcases lt_or_ge x n with hlt | hge
  · have hbelow : ⌊x⌋₊ + 1 = n := by
      have h₁ : (⌊x⌋₊ : ℚ) < n := hfloor.trans_lt hlt
      have h₂ : (n : ℚ) < ⌊x⌋₊ + 2 := by linarith
      norm_cast at h₁ h₂
      omega
    have hcast : (n : ℚ) = ⌊x⌋₊ + 1 := by rw [← hbelow]; push_cast; ring
    unfold nearest
    rw [if_neg (by linarith)]
    split_ifs with hgt
    · exact hbelow
    · have heven : n % 2 ≠ 1 := fun hodd => by linarith [(htie hodd).1]
      omega
  · have hsame : ⌊x⌋₊ = n := by
      have h₁ : (⌊x⌋₊ : ℚ) < n + 1 := by linarith
      have h₂ : (n : ℚ) < ⌊x⌋₊ + 1 := by linarith
      norm_cast at h₁ h₂
      omega
    unfold nearest
    rw [hsame]
    split_ifs with hlt hgt
    · rfl
    · exact absurd hhigh (not_le.mpr hgt)
    · have heven : n % 2 ≠ 1 := fun hodd => by linarith [(htie hodd).2]
      omega

/-- The exponent of the unit in which a double holds `x`. -/
def unitOf (x : ℚ) : ℤ := max (Int.log 2 x - 52) (-1074)

theorem le_unitOf (x : ℚ) : -1074 ≤ unitOf x := le_max_right _ _

theorem unitOf_mono {x y : ℚ} (hx : 0 < x) (h : x ≤ y) : unitOf x ≤ unitOf y :=
  max_le_max (sub_le_sub_right (Int.log_mono_right hx h) 52) le_rfl

theorem two_zpow_pos (e : ℤ) : (0 : ℚ) < 2 ^ e := zpow_pos two_pos e

theorem lt_zpow_unitOf (x : ℚ) : x < 2 ^ (unitOf x + 53) := by
  have hlog : x < (2 : ℚ) ^ (Int.log 2 x + 1) := Int.lt_zpow_succ_log_self (by decide) x
  refine hlog.trans_le (zpow_le_zpow_right₀ one_le_two ?_)
  have := le_max_left (Int.log 2 x - 52) (-1074)
  unfold unitOf
  omega

theorem zpow_unitOf_le {x : ℚ} (hx : 0 < x) (h : unitOf x ≠ -1074) : 2 ^ (unitOf x + 52) ≤ x := by
  have hlog : (2 : ℚ) ^ Int.log 2 x ≤ x := Int.zpow_log_le_self (by decide) hx
  have hunit : unitOf x + 52 = Int.log 2 x := by
    unfold unitOf at h ⊢
    omega
  rwa [hunit]

/-- The unit is the power of two for which 53 digits suffice and, above the least, 52 do not. -/
theorem unitOf_eq {x : ℚ} {q : ℤ} (hx : 0 < x) (hq : -1074 ≤ q)
    (hlow : 2 ^ (q + 52) ≤ x ∨ q = -1074) (hhigh : x < 2 ^ (q + 53)) : unitOf x = q := by
  have hlog : Int.log 2 x < q + 53 := (Int.lt_zpow_iff_log_lt (by decide) hx).mp hhigh
  unfold unitOf
  rcases hlow with hlow | rfl
  · have hle : q + 52 ≤ Int.log 2 x := (Int.zpow_le_iff_le_log (by decide) hx).mp hlow
    omega
  · omega

def rounded (x : ℚ) : ℚ := nearest (x / 2 ^ unitOf x) * 2 ^ unitOf x

@[simp] theorem rounded_zero : rounded 0 = 0 := by
  simp [rounded, nearest]

theorem rounded_nonneg (x : ℚ) : 0 ≤ rounded x :=
  mul_nonneg (Nat.cast_nonneg _) (two_zpow_pos _).le

theorem zpow_add_natCast (q : ℤ) (n : ℕ) : (2 : ℚ) ^ (q + n) = ((2 ^ n : ℕ) : ℚ) * 2 ^ q := by
  rw [zpow_add₀ two_ne_zero, zpow_natCast, mul_comm]
  push_cast
  rfl

theorem zpow_add_ofNat (q : ℤ) (n : ℕ) [n.AtLeastTwo] :
    (2 : ℚ) ^ (q + OfNat.ofNat n) = ((2 ^ OfNat.ofNat n : ℕ) : ℚ) * 2 ^ q :=
  zpow_add_natCast q n

theorem nearest_div_unit_le (x : ℚ) : nearest (x / 2 ^ unitOf x) ≤ 2 ^ 53 := by
  refine nearest_le ((div_le_iff₀ (two_zpow_pos _)).mpr ?_)
  rw [← zpow_add_natCast]
  exact (lt_zpow_unitOf x).le

theorem le_nearest_div_unit {x : ℚ} (hx : 0 < x) (h : unitOf x ≠ -1074) :
    2 ^ 52 ≤ nearest (x / 2 ^ unitOf x) := by
  refine le_nearest ((le_div_iff₀ (two_zpow_pos _)).mpr ?_)
  rw [← zpow_add_natCast]
  exact zpow_unitOf_le hx h

theorem rounded_le_zpow (x : ℚ) : rounded x ≤ 2 ^ (unitOf x + 53) := by
  rw [zpow_add_ofNat]
  exact mul_le_mul_of_nonneg_right (mod_cast nearest_div_unit_le x) (two_zpow_pos _).le

theorem zpow_le_rounded {x : ℚ} (hx : 0 < x) (h : unitOf x ≠ -1074) :
    2 ^ (unitOf x + 52) ≤ rounded x := by
  rw [zpow_add_ofNat]
  exact mul_le_mul_of_nonneg_right (mod_cast le_nearest_div_unit hx h) (two_zpow_pos _).le

theorem rounded_mono {x y : ℚ} (hx : 0 ≤ x) (h : x ≤ y) : rounded x ≤ rounded y := by
  rcases hx.eq_or_lt with rfl | hpos
  · rw [rounded_zero]
    exact rounded_nonneg y
  rcases (unitOf_mono hpos h).lt_or_eq with hlt | heq
  · -- a larger unit starts where the smaller one ends
    have hunit : unitOf y ≠ -1074 := by
      have := le_unitOf x
      omega
    calc rounded x ≤ 2 ^ (unitOf x + 53) := rounded_le_zpow x
      _ ≤ 2 ^ (unitOf y + 52) := zpow_le_zpow_right₀ one_le_two (by omega)
      _ ≤ rounded y := zpow_le_rounded (hpos.trans_le h) hunit
  · unfold rounded
    rw [heq]
    have hnearest := nearest_mono (div_le_div_of_nonneg_right h (two_zpow_pos (unitOf y)).le)
    exact mul_le_mul_of_nonneg_right (mod_cast hnearest) (two_zpow_pos _).le

theorem rounded_close {x : ℚ} (hx : 0 ≤ x) : |rounded x - x| ≤ 2 ^ unitOf x / 2 := by
  have hpos := two_zpow_pos (unitOf x)
  have hclose := nearest_close (div_nonneg hx hpos.le)
  have hscale : rounded x - x = (nearest (x / 2 ^ unitOf x) - x / 2 ^ unitOf x) * 2 ^ unitOf x := by
    unfold rounded
    field_simp
  rw [hscale, abs_mul, abs_of_pos hpos]
  calc |(nearest (x / 2 ^ unitOf x) : ℚ) - x / 2 ^ unitOf x| * 2 ^ unitOf x
      ≤ 1 / 2 * 2 ^ unitOf x := mul_le_mul_of_nonneg_right hclose hpos.le
    _ = 2 ^ unitOf x / 2 := by ring

/-- On one grid decimals of at most fifteen digits stay apart. -/
theorem rounded_lt_of_lt {a b k : ℕ} (hab : a < b) (hb : b ≤ 10 ^ 15) (hk : k ≤ 15) :
    rounded (a / 10 ^ k) < rounded (b / 10 ^ k) := by
  have hten : (0 : ℚ) < 10 ^ k := by positivity
  have hstep : (a : ℚ) + 1 ≤ b := mod_cast hab
  have hbpos : (0 : ℚ) < b / 10 ^ k := div_pos (mod_cast (by omega : 0 < b)) hten
  have hgap : (a : ℚ) / 10 ^ k + 1 / 10 ^ k ≤ b / 10 ^ k := by
    rw [← add_div]
    exact div_le_div_of_nonneg_right hstep hten.le
  have ha : (0 : ℚ) ≤ a / 10 ^ k := by positivity
  have hunit : (2 : ℚ) ^ unitOf (b / 10 ^ k : ℚ) < 1 / 10 ^ k := by
    by_cases hleast : unitOf (b / 10 ^ k : ℚ) = -1074
    · rw [hleast]
      calc (2 : ℚ) ^ (-1074 : ℤ) ≤ 2 ^ (-52 : ℤ) := zpow_le_zpow_right₀ one_le_two (by decide)
        _ < 1 / 10 ^ 15 := by norm_num
        _ ≤ 1 / 10 ^ k := one_div_le_one_div_of_le hten
            (pow_le_pow_right₀ (by norm_num) hk)
    · have hpow := zpow_unitOf_le hbpos hleast
      rw [zpow_add_ofNat, le_div_iff₀ hten] at hpow
      rw [lt_div_iff₀ hten]
      have hbcast : (b : ℚ) ≤ 10 ^ 15 := mod_cast hb
      push_cast at hpow
      linarith
  have hfar := abs_le.mp (rounded_close hbpos.le)
  rcases ha.eq_or_lt with hzero | hpos
  · rw [← hzero, rounded_zero]
    linarith [hfar.1]
  · have hnear := abs_le.mp (rounded_close ha)
    have hle : (2 : ℚ) ^ unitOf (a / 10 ^ k : ℚ) ≤ 2 ^ unitOf (b / 10 ^ k : ℚ) :=
      zpow_le_zpow_right₀ one_le_two (unitOf_mono hpos (by linarith [one_div_pos.mpr hten]))
    linarith [hfar.1, hnear.2]

/-- Decimals of at most fifteen digits stay apart, with however many of them after the point. -/
theorem rounded_lt {a b j k : ℕ} (ha : a < 10 ^ 15) (hb : b < 10 ^ 15) (hj : j ≤ 15) (hk : k ≤ 15)
    (h : (a / 10 ^ j : ℚ) < b / 10 ^ k) : rounded (a / 10 ^ j) < rounded (b / 10 ^ k) := by
  have hjpos : (0 : ℚ) < 10 ^ j := by positivity
  have hkpos : (0 : ℚ) < 10 ^ k := by positivity
  rcases le_total j k with hle | hle
  · obtain ⟨d, rfl⟩ := Nat.exists_eq_add_of_le hle
    have hgrid : (a / 10 ^ j : ℚ) = (a * 10 ^ d : ℕ) / 10 ^ (j + d) := by
      rw [pow_add]
      push_cast
      field_simp
    rw [hgrid] at h ⊢
    have hlt : a * 10 ^ d < b := by exact_mod_cast (div_lt_div_iff_of_pos_right hkpos).mp h
    exact rounded_lt_of_lt hlt hb.le hk
  · -- the larger one may be beyond the end of the finer grid: then that end is between them
    obtain ⟨d, rfl⟩ := Nat.exists_eq_add_of_le hle
    have hgrid : (b / 10 ^ k : ℚ) = (b * 10 ^ d : ℕ) / 10 ^ (k + d) := by
      rw [pow_add]
      push_cast
      field_simp
    rw [hgrid] at h ⊢
    have hlt : a < b * 10 ^ d := by exact_mod_cast (div_lt_div_iff_of_pos_right hjpos).mp h
    have hmin : (min (b * 10 ^ d) (10 ^ 15) : ℕ) / (10 ^ (k + d) : ℚ) ≤
        (b * 10 ^ d : ℕ) / 10 ^ (k + d) :=
      div_le_div_of_nonneg_right (mod_cast min_le_left _ _) hjpos.le
    calc rounded (a / 10 ^ (k + d))
        < rounded ((min (b * 10 ^ d) (10 ^ 15) : ℕ) / 10 ^ (k + d)) :=
          rounded_lt_of_lt (lt_min hlt ha) (min_le_right _ _) hj
      _ ≤ rounded ((b * 10 ^ d : ℕ) / 10 ^ (k + d)) := rounded_mono (by positivity) hmin

end PgMetrics.Decimal
