import PgMetrics.Scrape
import PgMetrics.Proofs.Decimal.Spelling

/-! # Releases as versions

A release is announced as `major.minor`, and the version read off that is the double nearest to this
decimal.  So versions order releases as decimals: `14.10` counts as `14.1`.  That is the order of
releases where the major numbers differ or the minor numbers have equally many digits, and as long
as fifteen digits hold a release.
-/
namespace PgMetrics.Version

open Decimal

theorem groupsFrom_append {ds : List Char} (hne : ds ≠ []) (h : ∀ c ∈ ds, Text.isDecimal c = true)
    (owed : Bool) (rest : List Char) : groupsFrom owed (ds ++ rest) = groupsFrom false rest := by
  induction ds generalizing owed with
  | nil => exact absurd rfl hne
  | cons d ds ih =>
    obtain ⟨hd, hds⟩ := List.forall_mem_cons.mp h
    rw [List.cons_append, groupsFrom, if_pos hd]
    cases ds with
    | nil => rfl
    | cons => exact ih (List.cons_ne_nil _ _) hds false

theorem groupsFrom_point (rest : List Char) :
    groupsFrom false ('.' :: rest) = groupsFrom true rest := by
  rw [groupsFrom, if_neg (by decide)]
  rfl

variable (n : Numeral)

theorem isDecimal_whole : ∀ c ∈ n.whole, Text.isDecimal c = true :=
  fun c hc => Text.isDecimal_of_isDigit (n.isDigit c (List.mem_append_left _ hc))

theorem isDecimal_fraction : ∀ c ∈ n.fraction, Text.isDecimal c = true :=
  fun c hc => Text.isDecimal_of_isDigit (n.isDigit c (List.mem_append_right _ hc))

theorem word_cases (n : Numeral) : n.fraction = [] ∧ n.word = n.whole ∨
    n.fraction ≠ [] ∧ n.word = n.whole ++ '.' :: n.fraction := by
  unfold Numeral.word
  cases n.fraction with
  | nil => exact .inl ⟨rfl, rfl⟩
  | cons => exact .inr ⟨List.cons_ne_nil _ _, rfl⟩

theorem isDotted_word : isDotted n.word = true := by
  unfold isDotted
  rcases word_cases n with ⟨-, hword⟩ | ⟨hfraction, hword⟩
  · rw [hword, ← List.append_nil n.whole, groupsFrom_append n.whole_ne_nil (isDecimal_whole n)]
    rfl
  · rw [hword, groupsFrom_append n.whole_ne_nil (isDecimal_whole n), groupsFrom_point,
      ← List.append_nil n.fraction, groupsFrom_append hfraction (isDecimal_fraction n)]
    rfl

theorem leadingGroups_word : leadingGroups n.word = (n.whole, n.fraction) := by
  unfold leadingGroups
  rcases word_cases n with ⟨hfraction, hword⟩ | ⟨-, hword⟩
  · rw [hword, hfraction, List.takeWhile_eq_self_iff.mpr (isDecimal_whole n),
      List.dropWhile_eq_nil_iff.mpr (isDecimal_whole n)]
    rfl
  · rw [hword, List.takeWhile_append_of_pos (isDecimal_whole n),
      List.dropWhile_append_of_pos (isDecimal_whole n),
      List.takeWhile_cons_of_neg (by decide), List.append_nil,
      List.dropWhile_cons_of_neg (by decide), List.drop_one, List.tail_cons,
      List.takeWhile_eq_self_iff.mpr (isDecimal_fraction n)]

/-- A numeral reads as the double nearest to its value. -/
theorem ofWord?_word : ∃ x, ofWord? n.word = some x ∧ Stands x (capped n.value) := by
  obtain ⟨x, hx, hstands⟩ := n.ofNumeral?
  refine ⟨x, ?_, hstands⟩
  rw [ofWord?, if_pos (isDotted_word n), leadingGroups_word]
  exact hx

theorem isBlank_of_isDigit {c : Char} (h : c.isDigit = true) : Text.isBlank c = false :=
  Text.isBlank_of_isAlphanum (Bool.or_eq_true_iff.mpr (.inr h))

theorem isBlank_word : ∀ c ∈ n.word, Text.isBlank c = false := by
  intro c hc
  rcases word_cases n with ⟨-, hword⟩ | ⟨-, hword⟩
  · rw [hword] at hc
    exact isBlank_of_isDigit (n.isDigit c (List.mem_append_left _ hc))
  · rw [hword, List.mem_append, List.mem_cons] at hc
    rcases hc with hc | rfl | hc
    · exact isBlank_of_isDigit (n.isDigit c (List.mem_append_left _ hc))
    · decide
    · exact isBlank_of_isDigit (n.isDigit c (List.mem_append_right _ hc))

/-- What may follow a word: nothing, or a blank and anything. -/
def EndsWord (rest : List Char) : Prop := ∀ c ∈ rest.head?, Text.isBlank c = true

theorem firstWord_append {before word after : List Char}
    (hbefore : ∀ c ∈ before, Text.isBlank c = true) (hne : word ≠ [])
    (hword : ∀ c ∈ word, Text.isBlank c = false) (hafter : EndsWord after) :
    Text.firstWord (before ++ (word ++ after)) = word := by
  obtain ⟨c, cs, rfl⟩ := List.exists_cons_of_ne_nil hne
  have hstop : after.takeWhile (!Text.isBlank ·) = [] := by
    cases after with
    | nil => rfl
    | cons d after => exact List.takeWhile_cons_of_neg (by simp [hafter d rfl])
  unfold Text.firstWord
  rw [List.dropWhile_append_of_pos hbefore, List.cons_append,
    List.dropWhile_cons_of_neg (by simp [hword c List.mem_cons_self]), ← List.cons_append,
    List.takeWhile_append_of_pos fun d hd => by simp [hword d hd], hstop, List.append_nil]

theorem firstWord_word {rest : List Char} (hrest : EndsWord rest) :
    Text.firstWord (n.word ++ rest) = n.word := by
  have hne : n.word ≠ [] := by
    rcases word_cases n with ⟨-, hword⟩ | ⟨-, hword⟩
    · exact hword ▸ n.whole_ne_nil
    · exact hword ▸ List.append_ne_nil_of_left_ne_nil n.whole_ne_nil _
  rw [← List.nil_append (n.word ++ rest)]
  exact firstWord_append (List.forall_mem_nil _) hne (isBlank_word n) hrest

/-- An announcement that starts with a numeral counts as the double nearest to that. -/
theorem ofAnnouncement_stands {raw : String} {rest : List Char}
    (hraw : raw.toList = n.word ++ rest) (hrest : EndsWord rest) :
    Stands (ofAnnouncement raw).number (capped n.value) := by
  obtain ⟨x, hx, hstands⟩ := ofWord?_word n
  unfold ofAnnouncement
  rw [hraw, firstWord_word n hrest, hx]
  exact hstands

section
variable {v w : Version} {a b : ℚ}

theorem order?_of_stands (hv : Stands v.number a) (hw : Stands w.number b) :
    order? v w = some (compare a b) := by
  unfold order?
  rcases lt_trichotomy a b with hlt | rfl | hgt
  · rw [if_pos ((hv.lt_iff hw).mpr hlt), compare_lt_iff_lt.mpr hlt]
  · rw [if_neg ((hv.lt_iff hw).not.mpr (lt_irrefl a)), if_pos ((hv.beq_iff hw).mpr rfl),
      compare_eq_iff_eq.mpr rfl]
  · rw [if_neg ((hv.lt_iff hw).not.mpr hgt.not_gt), if_neg ((hv.beq_iff hw).not.mpr hgt.ne'),
      if_pos ((hw.lt_iff hv).mpr hgt), compare_gt_iff_gt.mpr hgt]

theorem beq_iff_of_stands (hv : Stands v.number a) (hw : Stands w.number b) :
    (v == w) = true ↔ a = b := hv.beq_iff hw

theorem reaches_iff_of_stands (hv : Stands v.number a) (hw : Stands w.number b) :
    v.reaches w.number = true ↔ b ≤ a := by
  unfold reaches
  rw [decide_eq_true_iff]
  exact hw.le_iff hv

/-- A finite version is read off its own text again. -/
theorem ofAnnouncement_text (hv : Holds v.number.toModel.unpack a) (ha : a < limit) :
    ofAnnouncement v.text = v := by
  obtain ⟨n, hword, hvalue⟩ := text_word hv ha
  have hraw : v.text.toList = n.word ++ [] := hword.trans (List.append_nil _).symm
  have hstands := ofAnnouncement_stands n hraw (by rintro c ⟨⟩)
  rw [hvalue] at hstands
  have hnumber : (ofAnnouncement v.text).number = v.number := hstands.unique (.finite hv ha)
  exact congrArg Version.mk hnumber

theorem text_infinite (hv : v.number.toModel.unpack = .infinity .positive) : v.text = "inf" := by
  have hnumber : v.number = .ofModel (.pack (.infinity .positive)) := toModel_unpack_injective hv
  unfold text
  rw [hnumber]
  decide

theorem ofAnnouncement_inf : ofAnnouncement "inf" = zero := rfl

theorem text_ne_inf (hv : Holds v.number.toModel.unpack a) (ha : a < limit) : v.text ≠ "inf" := by
  intro htext
  have hzero : v = zero := by rw [← ofAnnouncement_text hv ha, htext, ofAnnouncement_inf]
  rw [hzero] at htext
  exact absurd htext (by decide)

/-- Two versions have one text just if they are the same number. -/
theorem text_eq_iff_of_stands (hv : Stands v.number a) (hw : Stands w.number b) :
    v.text = w.text ↔ a = b := by
  constructor
  · intro htext
    cases hv with
    | finite hv ha =>
      cases hw with
      | finite hw hb =>
        have heq : v = w := by rw [← ofAnnouncement_text hv ha, htext, ofAnnouncement_text hw hb]
        subst heq
        exact (Stands.finite hv ha).eq (.finite hw hb)
      | infinite hw => exact absurd (htext.trans (text_infinite hw)) (text_ne_inf hv ha)
    | infinite hv =>
      cases hw with
      | finite hw hb => exact absurd (htext.symm.trans (text_infinite hv)) (text_ne_inf hw hb)
      | infinite => rfl
  · rintro rfl
    exact congrArg Decimal.text (hv.unique hw)

end

structure Release where
  major : ℕ
  minor : ℕ
  deriving Repr, DecidableEq

namespace Release

variable (r s : Release)

def text : String := toString r.major ++ "." ++ toString r.minor

def order : Ordering := (compare r.major s.major).then (compare r.minor s.minor)

def decimal : ℚ := r.major + r.minor / 10 ^ width r.minor

def digitCount : ℕ := width r.major + width r.minor

/-- The text is the release, alone or with anything after a blank. -/
def AnnouncedBy (raw : String) : Prop :=
  ∃ rest : String, raw = r.text ++ rest ∧ EndsWord rest.toList

def numeral : Numeral where
  whole := digits r.major
  fraction := digits r.minor
  whole_ne_nil := Nat.toDigits_ne_nil
  isDigit := List.forall_mem_append.mpr ⟨isDigit_digits _, isDigit_digits _⟩

theorem natural_numeral : r.numeral.natural = r.major * 10 ^ width r.minor + r.minor := by
  have hmajor : Nat.ofDigitChars 10 (digits r.major) 0 = r.major := Nat.ofDigitChars_ten_toDigits
  have hminor : Nat.ofDigitChars 10 (digits r.minor) 0 = r.minor := Nat.ofDigitChars_ten_toDigits
  unfold Numeral.natural numeral
  dsimp only
  rw [Nat.ofDigitChars_append, Nat.ofDigitChars_eq_ofDigitChars_zero, hmajor, hminor, Nat.mul_comm]
  rfl

theorem value_numeral : r.numeral.value = r.decimal := by
  unfold Numeral.value decimal
  rw [natural_numeral]
  change ((r.major * 10 ^ width r.minor + r.minor : ℕ) : ℚ) / 10 ^ width r.minor = _
  push_cast
  field_simp

theorem text_toList : r.text.toList = r.numeral.word := by
  have hword : r.numeral.word = digits r.major ++ '.' :: digits r.minor :=
    ((word_cases r.numeral).resolve_left fun h => Nat.toDigits_ne_nil h.1).2
  rw [hword, text, String.toList_append, String.toList_append, Nat.toString_eq_repr,
    Nat.toString_eq_repr, Nat.toList_repr, Nat.toList_repr, List.append_assoc]
  rfl

theorem stands {raw : String} (h : r.AnnouncedBy raw) :
    Stands (ofAnnouncement raw).number (capped r.decimal) := by
  obtain ⟨rest, rfl, hrest⟩ := h
  rw [← value_numeral]
  refine ofAnnouncement_stands r.numeral ?_ hrest
  rw [String.toList_append, text_toList]

theorem natural_lt (h : r.digitCount ≤ 15) : r.numeral.natural < 10 ^ 15 := by
  have hmajor := lt_pow_width r.major
  have hminor := lt_pow_width r.minor
  rw [natural_numeral]
  calc r.major * 10 ^ width r.minor + r.minor
      < (r.major + 1) * 10 ^ width r.minor := by rw [Nat.succ_mul]; omega
    _ ≤ 10 ^ width r.major * 10 ^ width r.minor := Nat.mul_le_mul_right _ hmajor
    _ = 10 ^ r.digitCount := (pow_add _ _ _).symm
    _ ≤ 10 ^ 15 := Nat.pow_le_pow_right (by decide) h

theorem decimal_eq : r.decimal = r.numeral.natural / 10 ^ width r.minor := r.value_numeral.symm

theorem rounded_decimal_lt (h : r.digitCount ≤ 15) : rounded r.decimal < limit := by
  have hle : r.decimal ≤ ((10 ^ 15 : ℕ) : ℚ) := by
    rw [decimal_eq]
    refine (div_le_self (Nat.cast_nonneg _) (one_le_pow₀ (by norm_num))).trans ?_
    exact_mod_cast (r.natural_lt h).le
  calc rounded r.decimal ≤ rounded (10 ^ 15 : ℕ) :=
        rounded_mono (r.value_numeral ▸ r.numeral.value_nonneg) hle
    _ = (10 ^ 15 : ℕ) := rounded_natCast (by norm_num)
    _ < limit := natCast_lt_limit (by norm_num)

/-- Up to fifteen digits no two decimals share a double. -/
theorem capped_lt (hr : r.digitCount ≤ 15) (hs : s.digitCount ≤ 15) (h : r.decimal < s.decimal) :
    capped r.decimal < capped s.decimal := by
  have hlt : rounded r.decimal < rounded s.decimal := by
    rw [decimal_eq, decimal_eq] at h ⊢
    have hrw : width r.minor ≤ 15 := le_trans (Nat.le_add_left _ _) hr
    have hsw : width s.minor ≤ 15 := le_trans (Nat.le_add_left _ _) hs
    exact rounded_lt (r.natural_lt hr) (s.natural_lt hs) hrw hsw h
  rwa [capped, capped, min_eq_left (r.rounded_decimal_lt hr).le,
    min_eq_left (s.rounded_decimal_lt hs).le]

theorem compare_capped (hr : r.digitCount ≤ 15) (hs : s.digitCount ≤ 15) :
    compare (capped r.decimal) (capped s.decimal) = compare r.decimal s.decimal := by
  rcases lt_trichotomy r.decimal s.decimal with hlt | heq | hgt
  · rw [compare_lt_iff_lt.mpr hlt, compare_lt_iff_lt.mpr (capped_lt r s hr hs hlt)]
  · rw [heq, compare_eq_iff_eq.mpr rfl, compare_eq_iff_eq.mpr rfl]
  · rw [compare_gt_iff_gt.mpr hgt, compare_gt_iff_gt.mpr (capped_lt s r hs hr hgt)]

theorem decimal_bounds : r.major ≤ r.decimal ∧ r.decimal < r.major + 1 := by
  have hpos : (0 : ℚ) < 10 ^ width r.minor := by positivity
  have hlow : (0 : ℚ) ≤ r.minor / 10 ^ width r.minor := by positivity
  have hhigh : (r.minor / 10 ^ width r.minor : ℚ) < 1 :=
    (div_lt_one hpos).mpr (mod_cast lt_pow_width r.minor)
  unfold decimal
  constructor <;> linarith

theorem decimal_lt_of_major_lt (h : r.major < s.major) : r.decimal < s.decimal := by
  have hstep : (r.major : ℚ) + 1 ≤ s.major := mod_cast h
  linarith [r.decimal_bounds.2, s.decimal_bounds.1]

/-- Decimals have the order of releases unless only the lengths of the minor numbers decide. -/
theorem compare_decimal (h : r.major ≠ s.major ∨ width r.minor = width s.minor) :
    compare r.decimal s.decimal = r.order s := by
  unfold order
  rcases lt_trichotomy r.major s.major with hlt | heq | hgt
  · rw [compare_lt_iff_lt.mpr hlt, compare_lt_iff_lt.mpr (r.decimal_lt_of_major_lt s hlt),
      Ordering.lt_then]
  · have hwidth : width r.minor = width s.minor := h.resolve_left (not_not_intro heq)
    have hpos : (0 : ℚ) < 10 ^ width s.minor := by positivity
    have hmono : StrictMono fun n : ℕ => (s.major : ℚ) + n / 10 ^ width s.minor := by
      intro m n hmn
      exact add_lt_add_right (div_lt_div_of_pos_right (mod_cast hmn) hpos) _
    rw [heq, compare_eq_iff_eq.mpr rfl, Ordering.eq_then, decimal, decimal, heq, hwidth,
      ← cmp_eq_compare, ← cmp_eq_compare]
    exact hmono.cmp_map_eq r.minor s.minor
  · rw [compare_gt_iff_gt.mpr hgt, compare_gt_iff_gt.mpr (s.decimal_lt_of_major_lt r hgt),
      Ordering.gt_then]

theorem order_eq_iff : r.order s = .eq ↔ r = s := by
  unfold order
  rw [Ordering.then_eq_eq, compare_eq_iff_eq, compare_eq_iff_eq]
  constructor
  · rintro ⟨hmajor, hminor⟩
    cases r
    cases s
    congr
  · rintro rfl
    exact ⟨rfl, rfl⟩

end Release

/-- Versions never turn the order of the decimals around, and up to fifteen digits they have exactly
that order.  Where it is the order of releases, two releases are one version, or have one label,
only if they are the same, and an older one never reaches a newer one. -/
theorem order_announced {r s : Release} {a b : String} (ha : r.AnnouncedBy a)
    (hb : s.AnnouncedBy b) :
    ∃ o, order? (ofAnnouncement a) (ofAnnouncement b) = some o ∧
      ((ofAnnouncement a == ofAnnouncement b) = true ↔ o = .eq) ∧
      ((Scrape.info (ofAnnouncement a)).labels = (Scrape.info (ofAnnouncement b)).labels ↔ o = .eq) ∧
      ((ofAnnouncement a).reaches (ofAnnouncement b).number = true ↔ o ≠ .lt) ∧
      (o = .lt → r.decimal < s.decimal) ∧ (o = .gt → s.decimal < r.decimal) ∧
      (r.digitCount ≤ 15 → s.digitCount ≤ 15 → o = compare r.decimal s.decimal ∧
        (r.major ≠ s.major ∨ width r.minor = width s.minor → o = r.order s ∧ (o = .eq ↔ r = s))) := by
  have hr := r.stands ha
  have hs := s.stands hb
  have hrnonneg : 0 ≤ r.decimal := r.value_numeral ▸ r.numeral.value_nonneg
  have hsnonneg : 0 ≤ s.decimal := s.value_numeral ▸ s.numeral.value_nonneg
  refine ⟨_, order?_of_stands hr hs, ?_, ?_, ?_, ?_, ?_, ?_⟩
  · rw [compare_eq_iff_eq]
    exact beq_iff_of_stands hr hs
  · rw [compare_eq_iff_eq, ← text_eq_iff_of_stands hr hs]
    simp [Scrape.info]
  · rw [reaches_iff_of_stands hr hs, Ne, compare_lt_iff_lt, not_lt]
  · intro hlt
    by_contra hge
    exact absurd (capped_mono hsnonneg (not_lt.mp hge)) (not_le.mpr (compare_lt_iff_lt.mp hlt))
  · intro hgt
    by_contra hge
    exact absurd (capped_mono hrnonneg (not_lt.mp hge)) (not_le.mpr (compare_gt_iff_gt.mp hgt))
  · intro hrdigits hsdigits
    rw [r.compare_capped s hrdigits hsdigits]
    refine ⟨rfl, fun hlengths => ?_⟩
    rw [r.compare_decimal s hlengths]
    exact ⟨rfl, r.order_eq_iff s⟩

theorem announcedBy_debian :
    Release.AnnouncedBy ⟨14, 2⟩ "14.2 (Debian 14.2-1.pgdg110+1)" :=
  ⟨" (Debian 14.2-1.pgdg110+1)", by decide, by rintro c ⟨⟩; decide⟩

theorem announcedBy_plain : Release.AnnouncedBy ⟨13, 11⟩ "13.11" :=
  ⟨"", by decide, by rintro c ⟨⟩⟩

theorem order_announced_debian :
    order? (ofAnnouncement "14.2 (Debian 14.2-1.pgdg110+1)") (ofAnnouncement "13.11") = some .gt := by
  obtain ⟨o, horder, -, -, -, -, -, hexact⟩ :=
    order_announced announcedBy_debian announcedBy_plain
  obtain ⟨-, hreleases⟩ := hexact (by decide) (by decide)
  obtain ⟨ho, -⟩ := hreleases (.inl (by decide))
  rw [horder, ho]
  rfl

/-- Where the minor numbers differ in length, a later release can be the same version, with the same
label, or even a lower one. -/
theorem later_not_greater :
    (Release.order ⟨14, 10⟩ ⟨14, 1⟩ = .gt ∧
      order? (ofAnnouncement (Release.text ⟨14, 10⟩)) (ofAnnouncement (Release.text ⟨14, 1⟩)) =
        some .eq ∧
      (Scrape.info (ofAnnouncement (Release.text ⟨14, 10⟩))).labels =
        (Scrape.info (ofAnnouncement (Release.text ⟨14, 1⟩))).labels) ∧
    Release.order ⟨9, 9⟩ ⟨9, 10⟩ = .lt ∧
      (ofAnnouncement (Release.text ⟨9, 9⟩)).reaches
        (ofAnnouncement (Release.text ⟨9, 10⟩)).number = true := by
  decide +kernel

-- Sixteen digits are too many.
example : order? (ofAnnouncement "8.100000000000001") (ofAnnouncement "8.100000000000002") =
    some .eq := by decide +kernel

end PgMetrics.Version
