/-! # Fields between separators

`fields sep` cuts a list at every separator; there is always one field more than separators.
`join_fields` says that nothing is lost, `fields_of_not_mem` that a list without separator is one
field.  `cut sep` cuts at the first separator only.
-/
namespace PgMetrics.Text

variable {α : Type} [DecidableEq α]

/-- The maximal stretches without `sep`, in order. -/
def fields (sep : α) : List α → List (List α)
  | [] => [[]]
  | a :: rest =>
    if a = sep then [] :: fields sep rest
    else
      match fields sep rest with
      | [] => [[a]]
      | f :: more => (a :: f) :: more

def joinFields (sep : α) : List (List α) → List α
  | [] => []
  | [f] => f
  | f :: g :: more => f ++ sep :: joinFields sep (g :: more)

/-- What stands before and after the first `sep`, if there is one. -/
def cut (sep : α) : List α → Option (List α × List α)
  | [] => none
  | a :: rest => if a = sep then some ([], rest) else (cut sep rest).map fun (l, r) => (a :: l, r)

theorem fields_ne_nil (sep : α) (l : List α) : fields sep l ≠ [] := by
  cases l with
  | nil => simp [fields]
  | cons a rest =>
    simp only [fields]
    split
    · simp
    · split <;> simp

theorem joinFields_fields (sep : α) (l : List α) : joinFields sep (fields sep l) = l := by
  induction l with
  | nil => rfl
  | cons a rest ih =>
    simp only [fields]
    have hne := fields_ne_nil sep rest
    split
    · rename_i h
      cases hf : fields sep rest with
      | nil => exact absurd hf hne
      | cons f more => rw [hf] at ih; simp [joinFields, ih, h]
    · cases hf : fields sep rest with
      | nil => exact absurd hf hne
      | cons f more =>
        rw [hf] at ih
        cases more with
        | nil => simpa [joinFields] using ih
        | cons g more => simp only [joinFields, List.cons_append] at ih ⊢; rw [ih]

theorem fields_of_not_mem (sep : α) {l : List α} (h : sep ∉ l) : fields sep l = [l] := by
  induction l with
  | nil => rfl
  | cons a rest ih =>
    simp only [List.mem_cons, not_or] at h
    simp [fields, Ne.symm h.1, ih h.2]

theorem fields_append_sep (sep : α) {f : List α} (h : sep ∉ f) (rest : List α) :
    fields sep (f ++ sep :: rest) = f :: fields sep rest := by
  induction f with
  | nil => simp [fields]
  | cons a f ih =>
    simp only [List.mem_cons, not_or] at h
    simp [fields, Ne.symm h.1, ih h.2]

theorem cut_append_sep (sep : α) {f : List α} (h : sep ∉ f) (rest : List α) :
    cut sep (f ++ sep :: rest) = some (f, rest) := by
  induction f with
  | nil => simp [cut]
  | cons a f ih =>
    simp only [List.mem_cons, not_or] at h
    simp [cut, Ne.symm h.1, ih h.2]

theorem eq_of_cut {sep : α} {l before after : List α} (h : cut sep l = some (before, after)) :
    l = before ++ sep :: after := by
  induction l generalizing before with
  | nil => cases h
  | cons a rest ih =>
    unfold cut at h
    split at h
    · rename_i ha
      cases h
      rw [ha, List.nil_append]
    · obtain ⟨⟨b, r⟩, hcut, heq⟩ := Option.map_eq_some_iff.mp h
      cases heq
      rw [ih hcut, List.cons_append]

theorem cut_eq_none_iff (sep : α) {l : List α} : cut sep l = none ↔ sep ∉ l := by
  induction l with
  | nil => simp [cut]
  | cons a rest ih =>
    by_cases h : a = sep
    · simp [cut, h]
    · simp [cut, h, ih, Ne.symm h]

end PgMetrics.Text
