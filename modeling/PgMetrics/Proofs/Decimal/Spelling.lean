import PgMetrics.Proofs.Decimal.Legible
import PgMetrics.Proofs.Decimal.Numeral

/-! # Numerals and what they say

A numeral is a word of ASCII digits, with further digits after a point or without.  The text of a
finite nonnegative double is such a word, and reading it gives that double again.
-/
namespace PgMetrics.Decimal

structure Numeral where
  whole : List Char
  fraction : List Char
  whole_ne_nil : whole ≠ []
  isDigit : ∀ c ∈ whole ++ fraction, c.isDigit = true

namespace Numeral

def word (n : Numeral) : List Char :=
  match n.fraction with
  | [] => n.whole
  | fraction => n.whole ++ '.' :: fraction

def natural (n : Numeral) : ℕ := Nat.ofDigitChars 10 (n.whole ++ n.fraction) 0

def value (n : Numeral) : ℚ := n.natural / 10 ^ n.fraction.length

theorem value_nonneg (n : Numeral) : 0 ≤ n.value := by
  unfold value
  positivity

end Numeral

theorem digitValue?_of_isDigit {c : Char} (h : c.isDigit = true) :
    digitValue? c = some (c.toNat - '0'.toNat) := if_pos h

theorem naturalFrom_of_isDigit {cs : List Char} (h : ∀ c ∈ cs, c.isDigit = true) (acc : ℕ) :
    naturalFrom acc cs = some (Nat.ofDigitChars 10 cs acc) := by
  induction cs generalizing acc with
  | nil => rfl
  | cons c rest ih =>
    obtain ⟨hc, hrest⟩ := List.forall_mem_cons.mp h
    rw [Nat.ofDigitChars_cons, Nat.mul_comm, naturalFrom, digitValue?_of_isDigit hc]
    exact ih hrest _

theorem natural?_of_isDigit {cs : List Char} (hne : cs ≠ []) (h : ∀ c ∈ cs, c.isDigit = true) :
    natural? cs = some (Nat.ofDigitChars 10 cs 0) := by
  cases cs with
  | nil => exact absurd rfl hne
  | cons c rest => exact naturalFrom_of_isDigit h 0

theorem isDigit_of_naturalFrom {cs : List Char} {acc n : ℕ} (h : naturalFrom acc cs = some n) :
    ∀ c ∈ cs, c.isDigit = true := by
  induction cs generalizing acc with
  | nil => exact List.forall_mem_nil _
  | cons c rest ih =>
    rw [naturalFrom, digitValue?] at h
    by_cases hc : c.isDigit = true
    · rw [if_pos hc] at h
      exact List.forall_mem_cons.mpr ⟨hc, ih h⟩
    · rw [if_neg hc] at h
      cases h

theorem isDigit_of_natural? {cs : List Char} {n : ℕ} (h : natural? cs = some n) :
    ∀ c ∈ cs, c.isDigit = true := by
  cases cs with
  | nil => cases h
  | cons c rest => exact isDigit_of_naturalFrom h

/-- A numeral reads as the double nearest to its value. -/
theorem Numeral.ofNumeral? (n : Numeral) :
    ∃ x, Decimal.ofNumeral? n.whole n.fraction = some x ∧ Stands x (capped n.value) := by
  refine ⟨Float.ofScientific n.natural true n.fraction.length, ?_, ofScientific_stands _ _⟩
  have hne : n.whole ++ n.fraction ≠ [] := List.append_ne_nil_of_left_ne_nil n.whole_ne_nil _
  rw [Decimal.ofNumeral?, natural?_of_isDigit hne n.isDigit]
  rfl

theorem isDigit_digits (n : ℕ) : ∀ c ∈ digits n, c.isDigit = true :=
  fun _ => Nat.isDigit_of_mem_toDigits (by decide) (by decide)

theorem isDigit_zeros (n : ℕ) : ∀ c ∈ List.replicate n '0', c.isDigit = true := by
  intro c hc
  rw [List.eq_of_mem_replicate hc]
  rfl

theorem dropEndWhile_append (p : Char → Bool) (cs : List Char) :
    ∃ rest, cs = Text.dropEndWhile p cs ++ rest ∧ ∀ c ∈ rest, p c = true := by
  induction cs with
  | nil => exact ⟨[], rfl, List.forall_mem_nil _⟩
  | cons c tail ih =>
    obtain ⟨rest, hrest, hp⟩ := ih
    unfold Text.dropEndWhile
    cases hkept : Text.dropEndWhile p tail with
    | nil =>
      rw [hkept, List.nil_append] at hrest
      dsimp only
      split
      · next hc => exact ⟨c :: tail, rfl, List.forall_mem_cons.mpr ⟨hc, hrest ▸ hp⟩⟩
      · exact ⟨tail, rfl, hrest ▸ hp⟩
    | cons d kept =>
      rw [hkept] at hrest
      exact ⟨rest, congrArg (c :: ·) hrest, hp⟩

/-- What is left of the digits after the point when the zeros at the end are dropped. -/
theorem dropEndWhile_zeros (cs : List Char) : ∃ k,
    cs = Text.dropEndWhile (· == '0') cs ++ List.replicate k '0' := by
  obtain ⟨rest, hrest, hzero⟩ := dropEndWhile_append (· == '0') cs
  refine ⟨rest.length, ?_⟩
  rw [← List.eq_replicate_of_mem fun c hc => eq_of_beq (hzero c hc)]
  exact hrest

/-- Zeros at the end of the digits after the point do not count. -/
theorem Numeral.value_eq (n : Numeral) {k p places : ℕ} (hplaces : n.fraction.length + k = places)
    (hp : Nat.ofDigitChars 10 (n.whole ++ n.fraction ++ List.replicate k '0') 0 = p) :
    n.value = p / 10 ^ places := by
  rw [Nat.ofDigitChars_append, Nat.ofDigitChars_replicate_zero] at hp
  unfold value natural
  rw [← hp, ← hplaces, pow_add]
  push_cast
  field_simp

theorem positional_of_nonneg (p e : ℕ) :
    ∃ n : Numeral, positional p e = n.word ∧ n.value = p * 10 ^ (e : ℤ) := by
  unfold positional
  rw [if_pos (Int.natCast_nonneg e), Int.toNat_natCast]
  refine ⟨⟨digits p ++ List.replicate e '0', [], ?_, ?_⟩, rfl, ?_⟩
  · exact List.append_ne_nil_of_left_ne_nil Nat.toDigits_ne_nil _
  · rw [List.append_nil]
    exact List.forall_mem_append.mpr ⟨isDigit_digits p, isDigit_zeros _⟩
  · have hdigits : Nat.ofDigitChars 10 (digits p) 0 = p := Nat.ofDigitChars_ten_toDigits
    unfold Numeral.value Numeral.natural
    simp only [List.append_nil, List.length_nil, pow_zero, div_one, zpow_natCast]
    rw [Nat.ofDigitChars_append, hdigits, Nat.ofDigitChars_replicate_zero]
    push_cast
    ring

theorem positional_of_neg (p : ℕ) {places : ℕ} (hplaces : 0 < places) :
    ∃ n : Numeral, positional p (-places) = n.word ∧ n.value = p * 10 ^ (-places : ℤ) := by
  have hsign : ¬ (0 : ℤ) ≤ -places := by omega
  unfold positional
  rw [if_neg hsign, neg_neg, Int.toNat_natCast]
  dsimp only
  obtain ⟨padded, hpadded⟩ : ∃ cs, List.replicate (places + 1 - (digits p).length) '0' ++
      digits p = cs := ⟨_, rfl⟩
  have hlength : places < padded.length := by
    rw [← hpadded, List.length_append, List.length_replicate]
    omega
  have hdigit : ∀ c ∈ padded, c.isDigit = true :=
    hpadded ▸ List.forall_mem_append.mpr ⟨isDigit_zeros _, isDigit_digits p⟩
  have hvalue : Nat.ofDigitChars 10 padded 0 = p := by
    rw [← hpadded, Nat.ofDigitChars_append, Nat.ofDigitChars_replicate_zero, Nat.mul_zero]
    exact Nat.ofDigitChars_ten_toDigits
  rw [hpadded]
  obtain ⟨k, hk⟩ := dropEndWhile_zeros (padded.drop (padded.length - places))
  have hdropped := congrArg List.length hk
  rw [List.length_drop, List.length_append, List.length_replicate] at hdropped
  generalize Text.dropEndWhile (· == '0') (padded.drop (padded.length - places)) = fraction
    at hk hdropped
  have hsplit :
      padded.take (padded.length - places) ++ fraction ++ List.replicate k '0' = padded := by
    rw [List.append_assoc, ← hk, List.take_append_drop]
  refine ⟨⟨padded.take (padded.length - places), fraction, ?_, fun c hc => hdigit c ?_⟩, ?_, ?_⟩
  · rw [Ne, List.take_eq_nil_iff, ← List.length_eq_zero_iff]
    omega
  · rw [← hsplit]
    exact List.mem_append_left _ hc
  · cases fraction <;> rfl
  · rw [zpow_neg, zpow_natCast, ← div_eq_mul_inv]
    exact Numeral.value_eq _ (by dsimp only; omega) (hsplit ▸ hvalue)

/-- Positional notation writes a numeral of the value it is given. -/
theorem positional_word (p : ℕ) (e : ℤ) :
    ∃ n : Numeral, positional p e = n.word ∧ n.value = p * 10 ^ e := by
  rcases lt_or_ge e 0 with hneg | hnonneg
  · obtain ⟨places, rfl⟩ : ∃ n : ℕ, e = -(n : ℤ) := ⟨(-e).toNat, by omega⟩
    exact positional_of_neg p (by omega)
  · obtain ⟨n, rfl⟩ := Int.eq_ofNat_of_zero_le hnonneg
    exact positional_of_nonneg p n

theorem text_zero {x : Float} (h : x.toModel.unpack = .zero .positive) : text x = "0" := by
  obtain rfl : x = 0 := toModel_unpack_injective h
  decide

theorem text_finite {x : Float} {m : ℕ} {e : ℤ} {hpos : 0 < m}
    (h : x.toModel.unpack = .finite .positive m e hpos) :
    (text x).toList = positional (shortest m e (m = 2 ^ 52 ∧ e ≠ -1074)).1
      (shortest m e (m = 2 ^ 52 ∧ e ≠ -1074)).2 := by
  unfold text
  rw [ofBits_of_unpack h]
  simp only [Parts.text, if_neg hpos.ne', Bool.false_eq_true, if_false, String.toList_ofList]

/-- The text of a finite nonnegative double is a numeral that reads as that double. -/
theorem text_word {x : Float} {v : ℚ} (h : Holds x.toModel.unpack v) (hv : v < limit) :
    ∃ n : Numeral, (text x).toList = n.word ∧ capped n.value = v := by
  generalize hu : x.toModel.unpack = u at h
  cases h with
  | zero =>
    obtain ⟨n, hword, hvalue⟩ := positional_word 0 0
    refine ⟨n, ?_, ?_⟩
    · rw [text_zero hu, ← hword]
      decide
    · rw [hvalue, Nat.cast_zero, zero_mul, capped_zero]
  | @finite m e hpos hm he hnormal =>
    have hform : Normal m e (m = 2 ^ 52 ∧ e ≠ -1074) :=
      ⟨hpos, hm, he, hnormal, decide_eq_true_iff⟩
    obtain ⟨n, hword, hvalue⟩ := positional_word _ _
    refine ⟨n, (text_finite hu).trans hword, ?_⟩
    rw [hvalue, capped, rounded_shortest hform]
    exact min_eq_left hv.le

end PgMetrics.Decimal
