import Mathlib.Data.List.TakeWhile
import PgMetrics.Text.Blank
import PgMetrics.Text.Fields

/-! # Cutting undoes joining

Fields without separator that are joined are found again by cutting, and trimming takes away just
the blanks that were put around a trimmed text.
-/
namespace PgMetrics.Text

section
variable {α : Type} {sep : α}

theorem fields_joinFields [DecidableEq α] {fs : List (List α)} (hne : fs ≠ [])
    (h : ∀ f ∈ fs, sep ∉ f) : fields sep (joinFields sep fs) = fs := by
  induction fs using joinFields.induct with
  | case1 => exact absurd rfl hne
  | case2 f => exact fields_of_not_mem sep (h f List.mem_cons_self)
  | case3 f g more ih =>
    obtain ⟨hf, hmore⟩ := List.forall_mem_cons.mp h
    rw [joinFields, fields_append_sep sep hf, ih (List.cons_ne_nil _ _) hmore]

theorem joinFields_eq_intercalate (sep : α) (fs : List (List α)) :
    joinFields sep fs = [sep].intercalate fs := by
  induction fs using joinFields.induct with
  | case1 => rfl
  | case2 f => rw [joinFields, List.intercalate_singleton]
  | case3 f g more ih =>
    rw [joinFields, ih, List.intercalate_cons_cons, List.append_assoc, List.singleton_append]

theorem eq_or_mem_of_mem_joinFields {a : α} {fs : List (List α)} (h : a ∈ joinFields sep fs) :
    a = sep ∨ ∃ f ∈ fs, a ∈ f := by
  induction fs using joinFields.induct with
  | case1 => cases h
  | case2 f => exact .inr ⟨f, List.mem_cons_self, h⟩
  | case3 f g more ih =>
    rcases List.mem_append.mp h with hf | hrest
    · exact .inr ⟨f, List.mem_cons_self, hf⟩
    · rcases List.mem_cons.mp hrest with heq | hmore
      · exact .inl heq
      · exact (ih hmore).imp_right fun ⟨k, hk, ha⟩ => ⟨k, List.mem_cons_of_mem _ hk, ha⟩

/-- An element of a list is a separator or stands in one of the fields. -/
theorem eq_or_mem_fields [DecidableEq α] (sep : α) {a : α} {l : List α} (h : a ∈ l) :
    a = sep ∨ ∃ f ∈ fields sep l, a ∈ f := by
  rw [← joinFields_fields sep l] at h
  exact eq_or_mem_of_mem_joinFields h

/-- The first separator cuts. -/
theorem notMem_of_cut [DecidableEq α] {l before after : List α}
    (h : cut sep l = some (before, after)) : sep ∉ before := by
  induction l generalizing before with
  | nil => cases h
  | cons a rest ih =>
    unfold cut at h
    split at h
    · cases h
      exact List.not_mem_nil
    next ha =>
      obtain ⟨⟨b, r⟩, hcut, heq⟩ := Option.map_eq_some_iff.mp h
      cases heq
      exact List.not_mem_cons_of_ne_of_not_mem (Ne.symm ha) (ih hcut)

end

/-- Whether a text has no blank at either end. -/
def IsTrimmed (cs : List Char) : Prop :=
  (∀ c ∈ cs.head?, isBlank c = false) ∧ ∀ c ∈ cs.getLast?, isBlank c = false

instance : DecidablePred IsTrimmed := fun cs =>
  decidable_of_iff (cs.head?.all (!isBlank ·) = true ∧ cs.getLast?.all (!isBlank ·) = true)
    (by simp [IsTrimmed, Option.all_eq_true])

section
variable {α : Type} {p : α → Bool} {l r : List α}

theorem dropEndWhile_eq_nil (h : ∀ a ∈ r, p a = true) : dropEndWhile p r = [] := by
  induction r with
  | nil => rfl
  | cons a rest ih =>
    obtain ⟨ha, hrest⟩ := List.forall_mem_cons.mp h
    rw [dropEndWhile, ih hrest]
    exact if_pos ha

/-- What is dropped at the end does not matter. -/
theorem dropEndWhile_append_of_pos (hr : ∀ a ∈ r, p a = true) :
    dropEndWhile p (l ++ r) = dropEndWhile p l := by
  induction l with
  | nil => exact dropEndWhile_eq_nil hr
  | cons a rest ih => rw [List.cons_append, dropEndWhile, ih, dropEndWhile]

theorem dropEndWhile_eq_self (hl : ∀ a ∈ l.getLast?, p a = false) : dropEndWhile p l = l := by
  induction l with
  | nil => rfl
  | cons a rest ih =>
    rw [dropEndWhile]
    cases rest with
    | nil => exact if_neg (by simp [hl a (by simp)])
    | cons b more => rw [ih (by simpa using hl)]

theorem getLast?_dropEndWhile : ∀ a ∈ (dropEndWhile p l).getLast?, p a = false := by
  induction l with
  | nil => simp [dropEndWhile]
  | cons a rest ih =>
    rw [dropEndWhile]
    cases hrest : dropEndWhile p rest with
    | nil => by_cases ha : p a = true <;> simp [ha]
    | cons b more =>
      rw [hrest] at ih
      simpa using ih

/-- Dropping at the end leaves a head that is not dropped where it is. -/
theorem head?_dropEndWhile (hl : ∀ a ∈ l.head?, p a = false) :
    ∀ a ∈ (dropEndWhile p l).head?, p a = false := by
  cases l with
  | nil => simp [dropEndWhile]
  | cons a rest =>
    have ha : p a = false := hl a rfl
    rw [dropEndWhile]
    cases dropEndWhile p rest <;> simp [ha]

end

theorem trimChars_eq_nil {cs : List Char} (h : ∀ c ∈ cs, isBlank c = true) :
    trimChars cs = [] := by
  rw [trimChars, List.dropWhile_eq_nil_iff.mpr h]
  rfl

/-- Blanks around a text are trimmed away with its own. -/
theorem trimChars_surround {before cs after : List Char}
    (hbefore : ∀ c ∈ before, isBlank c = true) (hafter : ∀ c ∈ after, isBlank c = true) :
    trimChars (before ++ (cs ++ after)) = trimChars cs := by
  rw [trimChars, List.dropWhile_append_of_pos hbefore, List.dropWhile_append, trimChars]
  split
  next hblank =>
    rw [List.isEmpty_iff.mp hblank, List.dropWhile_eq_nil_iff.mpr hafter]
  next => exact dropEndWhile_append_of_pos hafter

theorem trimChars_eq_self {cs : List Char} (h : IsTrimmed cs) : trimChars cs = cs := by
  have hfront : cs.dropWhile isBlank = cs := by
    cases cs with
    | nil => rfl
    | cons c rest => exact List.dropWhile_cons_of_neg (by simp [h.1 c rfl])
  rw [trimChars, hfront]
  exact dropEndWhile_eq_self h.2

/-- Blanks around a trimmed text are trimmed away. -/
theorem trimChars_append {before cs after : List Char} (hcs : IsTrimmed cs)
    (hbefore : ∀ c ∈ before, isBlank c = true) (hafter : ∀ c ∈ after, isBlank c = true) :
    trimChars (before ++ (cs ++ after)) = cs := by
  rw [trimChars_surround hbefore hafter, trimChars_eq_self hcs]

theorem isTrimmed_trimChars (cs : List Char) : IsTrimmed (trimChars cs) := by
  refine ⟨head?_dropEndWhile ?_, getLast?_dropEndWhile⟩
  intro c hc
  have hhead := List.head?_dropWhile_not isBlank cs
  rw [Option.mem_def.mp hc] at hhead
  simpa using hhead

/-- A trimmed text has no blank end left. -/
theorem trim_idem (s : String) : trim (trim s) = trim s := by
  rw [trim, trim, String.toList_ofList, trimChars_eq_self (isTrimmed_trimChars _)]

theorem trim_surround {before after : String} (s : String)
    (hbefore : ∀ c ∈ before.toList, isBlank c = true)
    (hafter : ∀ c ∈ after.toList, isBlank c = true) : trim (before ++ s ++ after) = trim s := by
  rw [trim, String.toList_append, String.toList_append, List.append_assoc,
    trimChars_surround hbefore hafter, trim]

end PgMetrics.Text
