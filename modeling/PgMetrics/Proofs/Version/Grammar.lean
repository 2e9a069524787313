import PgMetrics.Proofs.Decimal.ZeroSum
import PgMetrics.Proofs.Version.Releases
import PgMetrics.Text.Fields

/-! # The grammar of versions

Cut at its dots, a word is a version if every group is made of decimal digits of any script and the
first two groups are ASCII.  These two are then read as one numeral, and whatever follows them in
the word or in the announcement does not count.  Any other announcement is version zero, which
reaches no positive threshold.
-/
namespace PgMetrics.Version

open Decimal Text

/-- The first maximal run of characters that are not blank; it is empty only if there is none. -/
def IsFirstWord (cs word : List Char) : Prop :=
  ∃ before after, cs = before ++ (word ++ after) ∧ (∀ c ∈ before, isBlank c = true) ∧
    (∀ c ∈ word, isBlank c = false) ∧ EndsWord after ∧ (word = [] → after = [])

theorem isFirstWord_firstWord (cs : List Char) : IsFirstWord cs (firstWord cs) := by
  refine ⟨cs.takeWhile isBlank, (cs.dropWhile isBlank).dropWhile (!isBlank ·), ?_, ?_, ?_, ?_, ?_⟩
  · rw [firstWord, List.takeWhile_append_dropWhile, List.takeWhile_append_dropWhile]
  · intro c hc
    exact List.mem_takeWhile_imp hc
  · intro c hc
    simpa using List.mem_takeWhile_imp hc
  · intro c hc
    have hhead := List.head?_dropWhile_not (!isBlank ·) (cs.dropWhile isBlank)
    rw [Option.mem_def.mp hc] at hhead
    simpa using hhead
  · intro hnil
    cases hrest : cs.dropWhile isBlank with
    | nil => rfl
    | cons c rest =>
      have hhead := List.head?_dropWhile_not isBlank cs
      rw [hrest, List.head?_cons] at hhead
      rw [firstWord, hrest, List.takeWhile_cons_of_pos (by simpa using hhead)] at hnil
      exact absurd hnil (List.cons_ne_nil _ _)

theorem isFirstWord_iff {cs word : List Char} : IsFirstWord cs word ↔ word = firstWord cs := by
  constructor
  · rintro ⟨before, after, rfl, hbefore, hword, hafter, hnone⟩
    cases word with
    | nil =>
      rw [hnone rfl, firstWord, List.nil_append, List.dropWhile_append_of_pos hbefore]
      rfl
    | cons c rest =>
      rw [firstWord_append hbefore (List.cons_ne_nil _ _) hword hafter]
  · rintro rfl
    exact isFirstWord_firstWord cs

def IsGroup (group : List Char) : Prop := group ≠ [] ∧ ∀ c ∈ group, isDecimal c = true

theorem groupsFrom_iff {owed : Bool} {word first : List Char} {more : List (List Char)}
    (hfields : fields '.' word = first :: more) :
    groupsFrom owed word = true ↔
      (owed = true → first ≠ []) ∧ (∀ c ∈ first, isDecimal c = true) ∧ ∀ g ∈ more, IsGroup g := by
  -- along the word; what is owed is the nonemptiness of the group that has just begun
  induction word generalizing owed first more with
  | nil =>
    cases hfields
    simp [groupsFrom]
  | cons c rest ih =>
    obtain ⟨next, others, hrest⟩ := List.exists_cons_of_ne_nil (fields_ne_nil '.' rest)
    rw [fields, hrest] at hfields
    by_cases hdot : c = '.'
    · subst hdot
      cases hfields
      have hpoint : groupsFrom owed ('.' :: rest) = (!owed && groupsFrom true rest) := by
        rw [groupsFrom, if_neg (by decide)]
        rfl
      rw [hpoint, Bool.and_eq_true, ih hrest, List.forall_mem_cons, IsGroup]
      simp
      tauto
    · rw [if_neg hdot] at hfields
      cases hfields
      rw [groupsFrom, List.forall_mem_cons]
      by_cases hc : isDecimal c = true
      · rw [if_pos hc, ih hrest]
        simp [hc]
      · rw [if_neg hc]
        simp [hdot, hc]

theorem isDotted_iff {word : List Char} :
    isDotted word = true ↔ ∀ g ∈ fields '.' word, IsGroup g := by
  obtain ⟨first, more, hfields⟩ := List.exists_cons_of_ne_nil (fields_ne_nil '.' word)
  rw [isDotted, groupsFrom_iff hfields, hfields, List.forall_mem_cons, IsGroup]
  tauto

theorem takeWhile_joinFields {first : List Char} (hfirst : ∀ c ∈ first, isDecimal c = true)
    (more : List (List Char)) : (joinFields '.' (first :: more)).takeWhile isDecimal = first := by
  cases more with
  | nil => exact List.takeWhile_eq_self_iff.mpr hfirst
  | cons g more =>
    rw [joinFields, List.takeWhile_append_of_pos hfirst, List.takeWhile_cons_of_neg (by decide),
      List.append_nil]

theorem drop_joinFields {first : List Char} (hfirst : ∀ c ∈ first, isDecimal c = true)
    (more : List (List Char)) :
    ((joinFields '.' (first :: more)).dropWhile isDecimal).drop 1 = joinFields '.' more := by
  cases more with
  | nil =>
    change (first.dropWhile isDecimal).drop 1 = []
    rw [List.dropWhile_eq_nil_iff.mpr hfirst, List.drop_nil]
  | cons g more =>
    rw [joinFields, List.dropWhile_append_of_pos hfirst, List.dropWhile_cons_of_neg (by decide)]
    rfl

theorem leadingGroups_of_isGroup {word first : List Char} {more : List (List Char)}
    (hfields : fields '.' word = first :: more) (hgroups : ∀ g ∈ fields '.' word, IsGroup g) :
    leadingGroups word = (first, more.head?.getD []) := by
  rw [hfields, List.forall_mem_cons] at hgroups
  obtain ⟨hfirst, hmore⟩ := hgroups
  have hword : word = joinFields '.' (first :: more) := by rw [← hfields, joinFields_fields]
  unfold leadingGroups
  rw [hword, takeWhile_joinFields hfirst.2, drop_joinFields hfirst.2]
  cases more with
  | nil => rfl
  | cons second more =>
    rw [takeWhile_joinFields (hmore second List.mem_cons_self).2]
    rfl

def groups (n : Numeral) : List (List Char) :=
  match n.fraction with
  | [] => [n.whole]
  | fraction => [n.whole, fraction]

/-- Whether a word is a version: groups of digits, of which the first two are ASCII. -/
structure IsVersion (word : List Char) : Prop where
  isGroup : ∀ g ∈ fields '.' word, IsGroup g
  isDigit : ∀ g ∈ (fields '.' word).take 2, ∀ c ∈ g, c.isDigit = true

theorem IsVersion.exists_numeral {word : List Char} (h : IsVersion word) :
    ∃ n : Numeral, groups n = (fields '.' word).take 2 ∧
      leadingGroups word = (n.whole, n.fraction) := by
  obtain ⟨hgroups, hdigits⟩ := h
  obtain ⟨first, more, hfields⟩ := List.exists_cons_of_ne_nil (fields_ne_nil '.' word)
  have hleading := leadingGroups_of_isGroup hfields hgroups
  rw [hfields] at hgroups hdigits ⊢
  have hfirst : IsGroup first := hgroups first List.mem_cons_self
  cases more with
  | nil =>
    refine ⟨⟨first, [], hfirst.1, ?_⟩, rfl, hleading⟩
    rw [List.append_nil]
    exact hdigits first List.mem_cons_self
  | cons second more =>
    have hsecond : IsGroup second := hgroups second (List.mem_cons_of_mem _ List.mem_cons_self)
    refine ⟨⟨first, second, hfirst.1, ?_⟩, ?_, hleading⟩
    · exact List.forall_mem_append.mpr ⟨hdigits first List.mem_cons_self,
        hdigits second (List.mem_cons_of_mem _ List.mem_cons_self)⟩
    · obtain ⟨c, cs, rfl⟩ := List.exists_cons_of_ne_nil hsecond.1
      rfl

theorem IsVersion.of_ofWord? {word : List Char} {x : Float} (h : ofWord? word = some x) :
    IsVersion word := by
  unfold ofWord? at h
  split at h
  · next hdotted =>
    have hgroups := isDotted_iff.mp hdotted
    refine ⟨hgroups, ?_⟩
    obtain ⟨first, more, hfields⟩ := List.exists_cons_of_ne_nil (fields_ne_nil '.' word)
    rw [leadingGroups_of_isGroup hfields hgroups] at h
    obtain ⟨n, hn, -⟩ := Option.map_eq_some_iff.mp h
    have hdigits := List.forall_mem_append.mp (isDigit_of_natural? hn)
    rw [hfields]
    cases more with
    | nil => simpa using hdigits.1
    | cons second more => simpa using hdigits
  · cases h

theorem ofWord?_of_isVersion {word : List Char} (h : IsVersion word) :
    ∃ n : Numeral, groups n = (fields '.' word).take 2 ∧
      ∃ x, ofWord? word = some x ∧ Stands x (capped n.value) := by
  obtain ⟨n, hn, hleading⟩ := h.exists_numeral
  obtain ⟨x, hx, hstands⟩ := n.ofNumeral?
  refine ⟨n, hn, x, ?_, hstands⟩
  rw [ofWord?, if_pos (isDotted_iff.mpr h.isGroup), hleading]
  exact hx

open Float.Model in
theorem compare_zero_of_zero_compare {u : UnpackedFloat}
    (h : (UnpackedFloat.zero .positive).compare u = some .lt) :
    u.compare (.zero .positive) = some .gt := by
  cases u with
  | infinity sign =>
    cases sign with
    | positive => rfl
    | negative => cases h
  | notANumber => cases h
  | zero => cases h
  | finite sign =>
    cases sign with
    | positive => rfl
    | negative => cases h

theorem not_le_zero_of_pos {t : Float} (ht : 0 < t) : ¬ t ≤ 0 := by
  rw [lt_iff_compare, unpack_zero] at ht
  rw [le_iff_compare, unpack_zero, compare_zero_of_zero_compare ht]
  decide

theorem zero_reaches {t : Float} (ht : 0 < t) : zero.reaches t = false :=
  decide_eq_false (not_le_zero_of_pos ht)

/-- The first word of an announcement decides alone: it counts as the double nearest to the numeral
of its first two groups if it is a version, and the announcement is version zero otherwise. -/
theorem ofAnnouncement_grammar (raw : String) :
    ∃ word, (∀ w, IsFirstWord raw.toList w ↔ w = word) ∧
      (IsVersion word → ∃ n : Numeral, groups n = (fields '.' word).take 2 ∧
        Stands (ofAnnouncement raw).number (capped n.value)) ∧
      (¬ IsVersion word → ofAnnouncement raw = zero ∧
        ∀ t : Float, 0 < t → (ofAnnouncement raw).reaches t = false) := by
  refine ⟨firstWord raw.toList, fun w => isFirstWord_iff, fun h => ?_, fun h => ?_⟩
  · obtain ⟨n, hn, x, hx, hstands⟩ := ofWord?_of_isVersion h
    refine ⟨n, hn, ?_⟩
    rw [ofAnnouncement, hx]
    exact hstands
  · have hzero : ofAnnouncement raw = zero := by
      rw [ofAnnouncement]
      cases hx : ofWord? (firstWord raw.toList) with
      | none => rfl
      | some x => exact absurd (IsVersion.of_ofWord? hx) h
    refine ⟨hzero, fun t ht => ?_⟩
    rw [hzero]
    exact zero_reaches ht

end PgMetrics.Version
