import PgMetrics.Decimal.Shortest
import PgMetrics.Proofs.Decimal.Mantissa

/-! # Doubles as numbers

A nonnegative double stands for a rational, the infinite one for the first power of two that no
finite double reaches.  Doubles compare as what they stand for, and packing a rounded number into
64 bits caps it at that power.
-/
namespace PgMetrics.Decimal

open Float.Model (Format)
open Float.Model.UnpackedFloat

namespace Holds

variable {u w : Float.Model.UnpackedFloat} {a b : ℚ}

/-- Of two normal forms the one with the larger exponent is larger. -/
theorem lt_of_exponent_lt {m n : ℕ} {d e : ℤ} (hm : m < 2 ^ 53) (hd : -1074 ≤ d)
    (hn : 2 ^ 52 ≤ n ∨ e = -1074) (h : d < e) : (m : ℚ) * 2 ^ d < n * 2 ^ e := by
  have hn : 2 ^ 52 ≤ n := hn.resolve_right (by omega)
  calc (m : ℚ) * 2 ^ d < (2 ^ 53 : ℕ) * 2 ^ d :=
        mul_lt_mul_of_pos_right (mod_cast hm) (two_zpow_pos d)
    _ = 2 ^ (d + 53) := (zpow_add_natCast d 53).symm
    _ ≤ 2 ^ (e + 52) := zpow_le_zpow_right₀ one_le_two (by omega)
    _ = (2 ^ 52 : ℕ) * 2 ^ e := zpow_add_natCast e 52
    _ ≤ n * 2 ^ e := mul_le_mul_of_nonneg_right (mod_cast hn) (two_zpow_pos e).le

theorem compare_eq (hu : Holds u a) (hw : Holds w b) : u.compare w = some (compare a b) := by
  cases hu with
  | zero =>
    cases hw with
    | zero => rfl
    | @finite n e hn =>
      have hpos : (0 : ℚ) < n * 2 ^ e := mul_pos (mod_cast hn) (two_zpow_pos e)
      rw [compare_lt_iff_lt.mpr hpos]
      rfl
  | @finite m d hm hmlt hd hmn =>
    cases hw with
    | zero =>
      have hpos : (0 : ℚ) < m * 2 ^ d := mul_pos (mod_cast hm) (two_zpow_pos d)
      rw [compare_gt_iff_gt.mpr hpos]
      rfl
    | @finite n e hn hnlt he hnn =>
      simp only [Float.Model.UnpackedFloat.compare, Option.some.injEq]
      rcases lt_trichotomy d e with hlt | rfl | hgt
      · rw [compare_lt_iff_lt.mpr hlt, Ordering.lt_then,
          compare_lt_iff_lt.mpr (lt_of_exponent_lt hmlt hd hnn hlt)]
      · rw [compare_eq_iff_eq.mpr rfl, Ordering.eq_then, ← cmp_eq_compare, ← cmp_eq_compare,
          cmp_mul_pos_right (two_zpow_pos d), Nat.strictMono_cast.cmp_map_eq]
      · rw [compare_gt_iff_gt.mpr hgt, Ordering.gt_then,
          compare_gt_iff_gt.mpr (lt_of_exponent_lt hnlt he hmn hgt)]

theorem compare_infinity (hu : Holds u a) : u.compare (.infinity .positive) = some .lt := by
  cases hu <;> rfl

theorem infinity_compare (hu : Holds u a) :
    Float.Model.UnpackedFloat.compare (.infinity .positive) u = some .gt := by
  cases hu <;> rfl

/-- Equal numbers have one normal form. -/
theorem unique (hu : Holds u a) (hw : Holds w a) : u = w := by
  have hcompare := hu.compare_eq hw
  rw [compare_eq_iff_eq.mpr rfl] at hcompare
  have hbeq : u.beq w = true := beq_iff_eq.mpr hcompare
  obtain ⟨-, -, heq | ⟨-, hzero⟩ | ⟨hzero, -⟩⟩ := (beq_iff_ne_notANumber_and_eq u w).mp hbeq
  · exact heq
  · rw [hzero] at hw
    cases hw
  · rw [hzero] at hu
    cases hu

end Holds

def limit : ℚ := 2 ^ 1024

theorem limit_eq : limit = (2 ^ 52 : ℕ) * 2 ^ (972 : ℤ) := by
  rw [← zpow_add_natCast]
  rfl

inductive Stands (x : Float) : ℚ → Prop
  | finite {v : ℚ} (h : Holds x.toModel.unpack v) (hv : v < limit) : Stands x v
  | infinite (h : x.toModel.unpack = .infinity .positive) : Stands x limit

theorem unpack_packComponents (e : BitVec 11) (f : BitVec 52) (he : e ≠ -1#11) (hzero : e ≠ 0#11)
    (hpos : 0 < f.toNat + 2 ^ 52) :
    unpack .binary64 (packComponents .binary64 .positive e f) =
      .finite .positive (f.toNat + 2 ^ 52) (e.toNat - 1075) hpos := by
  have hmantissa : (1#1 ++ f).toNat = f.toNat + 2 ^ 52 := by
    rw [BitVec.toNat_append, ← Nat.shiftLeft_add_eq_or_of_lt f.isLt, add_comm]
    rfl
  unfold unpack
  simp only [unpackExponent_packComponents, unpackMantissa_packComponents,
    unpackSign_packComponents, if_neg he, if_neg hzero, hmantissa]
  rfl

theorem unpack_pack_normal {m : ℕ} {e : ℤ} (hpos : 0 < m) (hlow : 2 ^ 52 ≤ m) (hm : m < 2 ^ 53)
    (he : -1074 ≤ e) (hmax : e < 972) :
    unpack .binary64 (pack .binary64 (.finite .positive m e hpos)) =
      .finite .positive m e hpos := by
  obtain ⟨n, rfl⟩ : ∃ n : ℕ, e = n - 1075 := ⟨(e + 1075).toNat, by omega⟩
  have hlog : m.log2 = 52 := (Nat.log2_eq_iff hpos.ne').mpr ⟨hlow, hm⟩
  have hbiased : ((n : ℤ) - 1075 + Format.binary64.exponentBias + (52 : ℕ)).toNat = n := by
    change ((n : ℤ) - 1075 + 1023 + 52).toNat = n
    omega
  have hexponent : (BitVec.ofNat 11 n).toNat = n := by
    rw [BitVec.toNat_ofNat, Nat.mod_eq_of_lt (by omega)]
  have hfraction : (BitVec.ofNat 52 m).toNat + 2 ^ 52 = m := by
    rw [BitVec.toNat_ofNat]
    omega
  have hmax : BitVec.ofNat 11 n ≠ -1#11 := by
    intro heq
    have hn := congrArg BitVec.toNat heq
    rw [hexponent] at hn
    have : (-1#11).toNat = 2047 := rfl
    omega
  have hmin : BitVec.ofNat 11 n ≠ 0#11 := by
    intro heq
    have hn := congrArg BitVec.toNat heq
    rw [hexponent] at hn
    have : (0#11).toNat = 0 := rfl
    omega
  have hpack : pack .binary64 (.finite .positive m (n - 1075) hpos) =
      packComponents .binary64 .positive (BitVec.ofNat 11 n) (BitVec.ofNat 52 m) := by
    unfold pack
    dsimp only
    rw [hbiased, if_neg (by change ¬ 2048 ≤ n + 1; omega), hlog]
    exact if_pos rfl
  rw [hpack, unpack_packComponents _ _ hmax hmin (by omega)]
  simp only [hfraction, hexponent]

theorem unpack_pack_subnormal {m : ℕ} (hpos : 0 < m) (hm : m < 2 ^ 52) :
    unpack .binary64 (pack .binary64 (.finite .positive m (-1074) hpos)) =
      .finite .positive m (-1074) hpos := by
  have hlog : m.log2 < 52 := (Nat.log2_lt hpos.ne').mpr hm
  have hfraction : (BitVec.ofNat 52 m).toNat = m := by
    rw [BitVec.toNat_ofNat, Nat.mod_eq_of_lt hm]
  have hne : BitVec.ofNat 52 m ≠ 0#52 := by
    intro heq
    have hn := congrArg BitVec.toNat heq
    rw [hfraction] at hn
    have : (0#52).toNat = 0 := rfl
    omega
  have hpack : pack .binary64 (.finite .positive m (-1074) hpos) =
      packComponents .binary64 .positive 0#11 (BitVec.ofNat 52 m) := by
    unfold pack
    dsimp only
    rw [if_neg (by decide), if_neg (by change ¬ m.log2 + 1 = 53; omega)]
  rw [hpack]
  unfold unpack
  simp only [unpackExponent_packComponents, unpackMantissa_packComponents,
    unpackSign_packComponents, hfraction]
  rw [if_neg (by decide), if_pos trivial, dif_neg hne]
  rfl

theorem pack_overflow {m : ℕ} {e : ℤ} (hpos : 0 < m) (he : 972 ≤ e) :
    pack .binary64 (.finite .positive m e hpos) = packedInfinity .binary64 .positive := by
  unfold pack
  dsimp only
  rw [if_pos]
  norm_num [Format.exponentBias]
  omega

theorem unpack_packedInfinity :
    unpack .binary64 (packedInfinity .binary64 .positive) = .infinity .positive := rfl

namespace Holds

variable {u : Float.Model.UnpackedFloat} {v : ℚ}

/-- What fits is kept. -/
theorem unpack_pack (h : Holds u v) (hv : v < limit) : (Float.Model.pack u).unpack = u := by
  cases h with
  | zero => rfl
  | @finite m e hpos hm he hnormal =>
    have hmax : e < 972 := by
      by_contra hge
      have hlarge : 2 ^ 52 ≤ m := hnormal.resolve_right (by omega)
      refine absurd hv (not_lt.mpr ?_)
      rw [limit_eq]
      exact mul_le_mul (mod_cast hlarge) (zpow_le_zpow_right₀ one_le_two (by omega))
        (two_zpow_pos _).le (Nat.cast_nonneg m)
    rcases lt_or_ge m (2 ^ 52) with hsmall | hlarge
    · obtain rfl : e = -1074 := hnormal.resolve_left (by omega)
      exact unpack_pack_subnormal hpos hsmall
    · exact unpack_pack_normal hpos hlarge hm he hmax

/-- What does not fit becomes infinite. -/
theorem unpack_pack_infinity (h : Holds u v) (hv : limit ≤ v) :
    (Float.Model.pack u).unpack = .infinity .positive := by
  cases h with
  | zero => exact absurd hv (by norm_num [limit])
  | @finite m e hpos hm he hnormal =>
    have hmax : 972 ≤ e := by
      by_contra hlt
      refine absurd hv (not_le.mpr ?_)
      rw [limit_eq]
      exact lt_of_exponent_lt hm he (.inl le_rfl) (by omega)
    change unpack .binary64 (pack .binary64 (.finite .positive m e hpos)) = _
    rw [pack_overflow hpos hmax]
    exact unpack_packedInfinity

theorem stands (h : Holds u v) : Stands (.ofModel (.pack u)) (min v limit) := by
  rcases lt_or_ge v limit with hlt | hge
  · rw [min_eq_left hlt.le]
    refine .finite ?_ hlt
    rw [h.unpack_pack hlt]
    exact h
  · rw [min_eq_right hge]
    exact .infinite (h.unpack_pack_infinity hge)

end Holds

theorem toModel_unpack_injective {x y : Float} (h : x.toModel.unpack = y.toModel.unpack) : x = y := by
  rw [← Float.ofBits_toBits x, ← Float.ofBits_toBits y]
  change Float.ofModel (.pack x.toModel.unpack) = Float.ofModel (.pack y.toModel.unpack)
  rw [h]

theorem lt_iff_compare {x y : Float} :
    x < y ↔ x.toModel.unpack.compare y.toModel.unpack = some .lt := by
  have hlt : x < y ↔ (x.toModel.unpack.compare y.toModel.unpack == some .lt) = true :=
    decide_eq_true_iff
  rw [hlt, beq_iff_eq]

theorem le_iff_compare {x y : Float} :
    x ≤ y ↔ (x.toModel.unpack.compare y.toModel.unpack).any (·.isLE) = true :=
  decide_eq_true_iff

namespace Stands

variable {x y : Float} {a b : ℚ}

theorem compare_eq (hx : Stands x a) (hy : Stands y b) :
    x.toModel.unpack.compare y.toModel.unpack = some (compare a b) := by
  cases hx with
  | finite hx ha =>
    cases hy with
    | finite hy => exact hx.compare_eq hy
    | infinite hy => rw [hy, hx.compare_infinity, compare_lt_iff_lt.mpr ha]
  | infinite hx =>
    cases hy with
    | finite hy hb => rw [hx, hy.infinity_compare, compare_gt_iff_gt.mpr hb]
    | infinite hy =>
      rw [hx, hy, compare_eq_iff_eq.mpr rfl]
      rfl

theorem lt_iff (hx : Stands x a) (hy : Stands y b) : x < y ↔ a < b := by
  rw [lt_iff_compare, hx.compare_eq hy, Option.some.injEq, compare_lt_iff_lt]

theorem le_iff (hx : Stands x a) (hy : Stands y b) : x ≤ y ↔ a ≤ b := by
  rw [le_iff_compare, hx.compare_eq hy, Option.any_some, Ordering.isLE_iff_ne_gt]
  exact compare_le_iff_le

theorem beq_iff (hx : Stands x a) (hy : Stands y b) : (x == y) = true ↔ a = b := by
  have hbeq : (x == y) = (x.toModel.unpack.compare y.toModel.unpack == some .eq) := rfl
  rw [hbeq, hx.compare_eq hy, beq_iff_eq, Option.some.injEq, compare_eq_iff_eq]

/-- A double stands for one number. -/
theorem eq (hx : Stands x a) (hy : Stands x b) : a = b := by
  have hnot : ¬ x < x := (hx.lt_iff hx).not.mpr (lt_irrefl a)
  have hle : a ≤ b := not_lt.mp ((hy.lt_iff hx).not.mp hnot)
  exact hle.antisymm (not_lt.mp ((hx.lt_iff hy).not.mp hnot))

/-- A number has one double. -/
theorem unique (hx : Stands x a) (hy : Stands y a) : x = y := by
  refine toModel_unpack_injective ?_
  cases hx with
  | finite hx ha =>
    cases hy with
    | finite hy => exact hx.unique hy
    | infinite => exact absurd ha (lt_irrefl _)
  | infinite hx =>
    cases hy with
    | finite _ hb => exact absurd hb (lt_irrefl _)
    | infinite hy => rw [hx, hy]

end Stands

theorem toNat_unpackExponent (b : BitVec 64) :
    (@unpackExponent .binary64 b).toNat = b.toNat / fractionSpan % 2048 := by
  rw [unpackExponent_def, BitVec.extractLsb'_toNat, Nat.shiftRight_eq_div_pow]
  rfl

theorem toNat_unpackMantissa (b : BitVec 64) :
    (@unpackMantissa .binary64 b).toNat = b.toNat % fractionSpan := by
  rw [unpackMantissa_def, BitVec.extractLsb'_toNat]
  rfl

theorem toNat_unpackSign (b : BitVec 64) :
    (@unpackSign .binary64 b).toNat = b.toNat / fractionSpan / 2048 := by
  have hb := b.isLt
  rw [unpackSign_def, BitVec.extractLsb'_toNat, Nat.shiftRight_eq_div_pow]
  change b.toNat / 2 ^ 63 % 2 = b.toNat / 2 ^ 52 / 2048
  omega

theorem toNat_of_positive {b : BitVec 1} (h : Sign.ofBitVec b = .positive) : b.toNat = 0 := by
  unfold Sign.ofBitVec at h
  split at h
  · next hb => rw [hb]; rfl
  · cases h

/-- The normal form of a finite double is made of its exponent and its fraction; only at the least
exponent there is no hidden bit. -/
theorem fields_of_unpack {x : Float} {s : Sign} {m : ℕ} {e : ℤ} {hpos : 0 < m}
    (h : x.toModel.unpack = .finite s m e hpos) :
    let exponent := x.toBits.toNat / fractionSpan % 2048
    let fraction := x.toBits.toNat % fractionSpan
    Sign.ofBitVec (@unpackSign .binary64 x.toBits.toBitVec) = s ∧ exponent ≠ 2047 ∧
      (exponent = 0 ∧ m = fraction ∧ e = -1074 ∨
        exponent ≠ 0 ∧ m = fraction + fractionSpan ∧ e = exponent - 1075) := by
  have hexponent := toNat_unpackExponent x.toBits.toBitVec
  have hmantissa := toNat_unpackMantissa x.toBits.toBitVec
  have hfraction := (@unpackMantissa .binary64 x.toBits.toBitVec).isLt
  rw [UInt64.toNat_toBitVec] at hexponent hmantissa
  change unpack .binary64 x.toBits.toBitVec = _ at h
  unfold unpack at h
  dsimp only at h ⊢
  rw [← hexponent, ← hmantissa]
  split at h
  · split at h <;> cases h
  next hmax =>
  have hmax : (@unpackExponent .binary64 x.toBits.toBitVec).toNat ≠ 2047 :=
    fun heq => hmax (BitVec.eq_of_toNat_eq heq)
  split at h
  · next hmin =>
    split at h
    · cases h
    · injection h with hs hm he
      rw [hmin] at he ⊢
      exact ⟨hs, by decide, .inl ⟨rfl, hm.symm, he.symm⟩⟩
  · next hmin =>
    injection h with hs hm he
    refine ⟨hs, hmax, .inr ⟨fun heq => hmin (BitVec.eq_of_toNat_eq heq), ?_, he.symm⟩⟩
    rw [← hm, BitVec.toNat_append, ← Nat.shiftLeft_add_eq_or_of_lt hfraction, add_comm]
    rfl

/-- The fields of a finite double are those of a normal form. -/
theorem normal_of_unpack {x : Float} {s : Sign} {m : ℕ} {e : ℤ} {hpos : 0 < m}
    (h : x.toModel.unpack = .finite s m e hpos) :
    m < 2 ^ 53 ∧ -1074 ≤ e ∧ (2 ^ 52 ≤ m ∨ e = -1074) := by
  have hfields := fields_of_unpack h
  have hfraction : x.toBits.toNat % fractionSpan < fractionSpan := Nat.mod_lt _ (by decide)
  have hspan : fractionSpan = 2 ^ 52 := rfl
  omega

/-- The fields that a finite double is spelled from are those of its normal form; below a power of
two, but for the least one, the doubles lie closer. -/
theorem ofBits_of_unpack {x : Float} {m : ℕ} {e : ℤ} {hpos : 0 < m}
    (h : x.toModel.unpack = .finite .positive m e hpos) :
    Parts.ofBits x.toBits = .finite false m e (m = 2 ^ 52 ∧ e ≠ -1074) := by
  obtain ⟨hs, hmax, hfields⟩ := fields_of_unpack h
  have hsign := toNat_unpackSign x.toBits.toBitVec
  have hfraction : x.toBits.toNat % fractionSpan < fractionSpan := Nat.mod_lt _ (by decide)
  have hspan : fractionSpan = 2 ^ 52 := rfl
  rw [toNat_of_positive hs, UInt64.toNat_toBitVec] at hsign
  unfold Parts.ofBits
  dsimp only
  rw [← hsign, if_neg (by rwa [beq_iff_eq])]
  rcases hfields with ⟨hmin, hm, rfl⟩ | ⟨hmin, hm, rfl⟩
  · have hedge : ¬ (m = 2 ^ 52 ∧ (-1074 : ℤ) ≠ -1074) := fun h => h.2 rfl
    rw [← hm, hmin, decide_eq_false hedge]
    rfl
  · rw [if_neg (by rwa [beq_iff_eq]), hm]
    refine congrArg (Parts.finite false _ _) ?_
    rw [Bool.eq_iff_iff, Bool.and_eq_true, beq_iff_eq, bne_iff_ne, decide_eq_true_iff]
    omega

end PgMetrics.Decimal
