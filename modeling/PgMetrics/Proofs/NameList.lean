import PgMetrics.NameList
import PgMetrics.Proofs.FirstSeen
import PgMetrics.Proofs.Text.Fields

/-! # What a list of names comes to

Tidying keeps, of the entries that are not blank, each trimmed name once, where it is first seen.
So names come to the same list however they are spelled: with blanks around them, with blank entries
among them, repeated after they have been seen, and in one text with commas or in several.
-/
namespace PgMetrics.NameList

/-- What entries say: their trimmed names, without those of blank entries. -/
def significant (xs : List String) : List String := (xs.map Text.trim).filter (· ≠ "")

def joined (xs : List String) : String := ",".intercalate xs

/-- Whether entries spell names in their order.  Any blanks may stand around a name, and entries may
be blank or repeat a name that has been there; `seen` are the names before. -/
inductive Spells : List String → List String → List String → Prop
  | done {seen : List String} : Spells seen [] []
  | name {seen names xs : List String} {name before after : String}
      (hbefore : ∀ c ∈ before.toList, Text.isBlank c = true)
      (hafter : ∀ c ∈ after.toList, Text.isBlank c = true) :
      Spells (name :: seen) xs names → Spells seen ((before ++ name ++ after) :: xs) (name :: names)
  | blank {seen names xs : List String} {blank : String}
      (hblank : ∀ c ∈ blank.toList, Text.isBlank c = true) :
      Spells seen xs names → Spells seen (blank :: xs) names
  | again {seen names xs : List String} {name before after : String}
      (hbefore : ∀ c ∈ before.toList, Text.isBlank c = true)
      (hafter : ∀ c ∈ after.toList, Text.isBlank c = true) (hseen : name ∈ seen) :
      Spells seen xs names → Spells seen ((before ++ name ++ after) :: xs) names

section
variable {xs ys : List String}

theorem significant_append (xs ys : List String) :
    significant (xs ++ ys) = significant xs ++ significant ys := by
  rw [significant, List.map_append, List.filter_append, significant, significant]

theorem mem_significant_iff {name : String} :
    name ∈ significant xs ↔ name ≠ "" ∧ ∃ x ∈ xs, Text.trim x = name := by
  rw [significant, List.mem_filter, List.mem_map, decide_eq_true_eq, and_comm]

/-- Tidying leaves each name once, where it is first seen. -/
theorem firstSeen_tidy (xs : List String) : FirstSeen (significant xs) (tidy xs) := by
  induction xs using List.reverseRecOn with
  | nil => exact FirstSeen.nil
  | append_singleton rest x ih =>
    rw [tidy_append, List.foldl_cons, List.foldl_nil, significant_append, add]
    by_cases hx : Text.trim x = ""
    · have hnone : significant [x] = [] := by simp [significant, hx]
      rw [hnone, List.append_nil, if_pos (Or.inl hx)]
      exact ih
    · have hone : significant [x] = [Text.trim x] := by simp [significant, hx]
      simp only [hx, false_or]
      rw [hone]
      exact ih.concat (Text.trim x)

theorem tidy_congr (h : significant xs = significant ys) : tidy xs = tidy ys := by
  have hxs := firstSeen_tidy xs
  rw [h] at hxs
  exact hxs.unique (firstSeen_tidy ys)

theorem significant_tidy (xs : List String) : significant (tidy xs) = tidy xs := by
  have hname : ∀ name ∈ tidy xs, name ≠ "" ∧ Text.trim name = name := by
    intro name hmem
    obtain ⟨hne, x, -, rfl⟩ := mem_significant_iff.mp (((firstSeen_tidy xs).mem_iff name).mp hmem)
    exact ⟨hne, Text.trim_idem x⟩
  have hmap : (tidy xs).map Text.trim = tidy xs :=
    (List.map_congr_left fun name hmem => (hname name hmem).2).trans (List.map_id _)
  rw [significant, hmap, List.filter_eq_self]
  intro name hmem
  exact decide_eq_true (hname name hmem).1

theorem tidy_idem (xs : List String) : tidy (tidy xs) = tidy xs := by
  have htwice := firstSeen_tidy (tidy xs)
  rw [significant_tidy] at htwice
  exact htwice.unique (FirstSeen.of_nodup (firstSeen_tidy xs).nodup)

/-- A list may be tidied before more is added. -/
theorem tidy_tidy_append (xs ys : List String) : tidy (tidy xs ++ ys) = tidy (xs ++ ys) := by
  rw [tidy_append, tidy_idem, tidy_append]

/-- Entries that say the same in any order come to the same names. -/
theorem tidy_perm (h : ∀ name, name ∈ significant xs ↔ name ∈ significant ys) :
    (tidy xs).Perm (tidy ys) :=
  (firstSeen_tidy xs).perm (firstSeen_tidy ys) h

end

section
variable {seen names acc xs : List String}

theorem add_congr {x y : String} (h : Text.trim x = Text.trim y) : add acc x = add acc y := by
  rw [add, h, add]

def Settled (acc : List String) (name : String) : Prop :=
  Text.trim name = "" ∨ Text.trim name ∈ acc

theorem add_of_settled {name : String} (h : Settled acc name) : add acc name = acc := if_pos h

theorem add_of_not_settled {name : String} (h : ¬ Settled acc name) :
    add acc name = acc ++ [Text.trim name] := if_neg h

theorem Settled.later {name : String} (h : Settled acc name) (x : String) :
    Settled (add acc x) name := by
  by_cases hx : Settled acc x
  · rwa [add_of_settled hx]
  · rw [add_of_not_settled hx]
    exact h.imp_right fun hmem => List.mem_append_left _ hmem

theorem settled_add (acc : List String) (name : String) : Settled (add acc name) name := by
  by_cases h : Settled acc name
  · exact h.later name
  · rw [add_of_not_settled h]
    exact Or.inr (List.mem_append_right _ List.mem_cons_self)

/-- The invariant of the loop: what has been seen is settled. -/
theorem Spells.foldl_add (h : Spells seen xs names) (hseen : ∀ name ∈ seen, Settled acc name) :
    xs.foldl add acc = names.foldl add acc := by
  induction h generalizing acc with
  | done => rfl
  | @name seen names xs name before after hbefore hafter _ ih =>
    rw [List.foldl_cons, List.foldl_cons, add_congr (Text.trim_surround name hbefore hafter)]
    apply ih
    rw [List.forall_mem_cons]
    exact ⟨settled_add acc name, fun old hold => (hseen old hold).later name⟩
  | @blank seen names xs blank hblank _ ih =>
    have hnone : Text.trim blank = "" := by rw [Text.trim, Text.trimChars_eq_nil hblank]
    rw [List.foldl_cons, add_of_settled (Or.inl hnone)]
    exact ih hseen
  | @again seen names xs name before after hbefore hafter hold _ ih =>
    rw [List.foldl_cons, add_congr (Text.trim_surround name hbefore hafter),
      add_of_settled (hseen name hold)]
    exact ih hseen

theorem Spells.tidy_eq (h : Spells [] xs names) : tidy xs = tidy names :=
  h.foldl_add fun _ hmem => absurd hmem List.not_mem_nil

theorem comma_notMem_blank {blank : String} (h : ∀ c ∈ blank.toList, Text.isBlank c = true) :
    ',' ∉ blank.toList := by
  intro hmem
  exact absurd (h ',' hmem) (by decide)

/-- Spelling adds no commas. -/
theorem Spells.comma_notMem (h : Spells seen xs names) (hseen : ∀ name ∈ seen, ',' ∉ name.toList)
    (hnames : ∀ name ∈ names, ',' ∉ name.toList) : ∀ x ∈ xs, ',' ∉ x.toList := by
  have hsurround : ∀ {name before after : String},
      (∀ c ∈ before.toList, Text.isBlank c = true) →
      (∀ c ∈ after.toList, Text.isBlank c = true) → ',' ∉ name.toList →
      ',' ∉ (before ++ name ++ after).toList := by
    intro name before after hbefore hafter hname
    simp [hname, comma_notMem_blank hbefore, comma_notMem_blank hafter]
  induction h with
  | done => exact fun _ hx => absurd hx List.not_mem_nil
  | name hbefore hafter _ ih =>
    rw [List.forall_mem_cons] at hnames ⊢
    exact ⟨hsurround hbefore hafter hnames.1,
      ih (List.forall_mem_cons.mpr ⟨hnames.1, hseen⟩) hnames.2⟩
  | blank hblank _ ih =>
    rw [List.forall_mem_cons]
    exact ⟨comma_notMem_blank hblank, ih hseen hnames⟩
  | again hbefore hafter hold _ ih =>
    rw [List.forall_mem_cons]
    exact ⟨hsurround hbefore hafter (hseen _ hold), ih hseen hnames⟩

end

section
variable {xs : List String}

theorem splitCommas_joined (hne : xs ≠ []) (h : ∀ x ∈ xs, ',' ∉ x.toList) :
    splitCommas (joined xs) = xs := by
  have htext : (joined xs).toList = Text.joinFields ',' (xs.map String.toList) := by
    rw [joined, String.toList_intercalate, Text.joinFields_eq_intercalate]
    rfl
  have hfields : ∀ cs ∈ xs.map String.toList, ',' ∉ cs := List.forall_mem_map.mpr h
  rw [splitCommas, htext, Text.fields_joinFields (by simpa using hne) hfields, List.map_map]
  exact (List.map_congr_left fun x _ => String.ofList_toList).trans (List.map_id _)

/-- A text of no entries has a blank one. -/
theorem significant_splitCommas_joined (h : ∀ x ∈ xs, ',' ∉ x.toList) :
    significant (splitCommas (joined xs)) = significant xs := by
  cases xs with
  | nil => rfl
  | cons x rest => rw [splitCommas_joined (List.cons_ne_nil _ _) h]

theorem significant_flatMap_joined {groups : List (List String)}
    (h : ∀ x ∈ groups.flatten, ',' ∉ x.toList) :
    significant ((groups.map joined).flatMap splitCommas) = significant groups.flatten := by
  induction groups with
  | nil => rfl
  | cons group rest ih =>
    rw [List.flatten_cons, List.forall_mem_append] at h
    rw [List.map_cons, List.flatMap_cons, List.flatten_cons, significant_append,
      significant_append, significant_splitCommas_joined h.1, ih h.2]

/-- Names come to the same list in whatever groups the entries that spell them are joined. -/
theorem Spells.tidy_groups {names : List String} {groups : List (List String)}
    (h : Spells [] groups.flatten names) (hnames : ∀ name ∈ names, ',' ∉ name.toList) :
    tidy ((groups.map joined).flatMap splitCommas) = tidy names := by
  have hcomma := h.comma_notMem (fun _ hmem => absurd hmem List.not_mem_nil) hnames
  exact (tidy_congr (significant_flatMap_joined hcomma)).trans h.tidy_eq

theorem Spells.tidy_joined {names : List String} (h : Spells [] xs names)
    (hnames : ∀ name ∈ names, ',' ∉ name.toList) : tidy (splitCommas (joined xs)) = tidy names := by
  have hgroups : Spells [] [xs].flatten names := by simpa using h
  simpa using hgroups.tidy_groups hnames

end
end PgMetrics.NameList
