import PgMetrics.Proofs.CommandLine.Steps

/-! # Values among the arguments

A setting without a letter gets its values by its long name alone: after an equals sign, or from the
next argument.  What is read from arguments that are not refused has exactly these values, in their
order, whatever other options stand between them.
-/
namespace PgMetrics.CommandLine

namespace Setting

def option (s : Setting) : String := "--" ++ s.text.name

/-- The value that an argument itself gives a setting, after an equals sign. -/
def attached? (s : Setting) (arg : String) : Option String :=
  match Text.cut '=' arg.toList with
  | some (option, text) => if option = s.option.toList then some (String.ofList text) else none
  | none => none

def values (s : Setting) : List String → List String
  | [] => []
  | arg :: rest =>
    if arg = s.option then rest.head?.toList ++ s.values rest
    else (s.attached? arg).toList ++ s.values rest

end Setting

def Occurrence.value? (s : Setting) : Occurrence → Option String
  | .value t text _ => if t = s then some text else none
  | _ => none

section
variable {s : Setting} {arg text : String}

theorem Flag.ofName?_setting (s : Setting) : Flag.ofName? s.text.name = some (.setting s) := by
  have hmem : Flag.setting s ∈ Flag.all := by cases s <;> simp [Flag.all, Setting.all]
  exact Flag.ofName?_eq_some_iff.mpr ⟨hmem, rfl⟩

theorem Setting.equals_notMem_option (s : Setting) : '=' ∉ s.option.toList := by
  cases s <;> decide

theorem Setting.toList_option (s : Setting) :
    s.option.toList = '-' :: '-' :: s.text.name.toList := by
  rw [option, String.toList_append]
  rfl

theorem Setting.attached?_eq_some_iff :
    s.attached? arg = some text ↔ arg = s.option ++ "=" ++ text := by
  have htoList : (s.option ++ "=" ++ text).toList = s.option.toList ++ '=' :: text.toList := by
    simp
  rw [← String.toList_inj, htoList]
  unfold attached?
  constructor
  · intro h
    split at h
    next option rest hcut =>
      split at h
      next hoption =>
        cases h
        rw [Text.eq_of_cut hcut, hoption, String.toList_ofList]
      next => cases h
    next => cases h
  · intro h
    rw [h, Text.cut_append_sep '=' s.equals_notMem_option]
    simp

theorem argument_attached (s : Setting) (text : String) :
    argument (s.option ++ "=" ++ text).toList = ([.value s text false], .complete) := by
  have htoList : (s.option ++ "=" ++ text).toList =
      '-' :: '-' :: (s.text.name.toList ++ '=' :: text.toList) := by
    simp [s.toList_option]
  have hname : '=' ∉ s.text.name.toList := fun hmem =>
    s.equals_notMem_option (s.toList_option ▸ List.mem_cons_of_mem _ (List.mem_cons_of_mem _ hmem))
  rw [htoList]
  change word _ = _
  rw [word, Text.cut_append_sep '=' hname]
  simp [Flag.ofName?_setting]

theorem argument_option (s : Setting) : argument s.option.toList = ([], .wants s) := by
  have hname : '=' ∉ s.text.name.toList := fun hmem =>
    s.equals_notMem_option (s.toList_option ▸ List.mem_cons_of_mem _ (List.mem_cons_of_mem _ hmem))
  rw [s.toList_option]
  change word _ = _
  rw [word, (Text.cut_eq_none_iff '=').mpr hname]
  simp [Flag.ofName?_setting]

theorem setting_ne_of_ofLetter? (hs : s.text.letter = none) {c : Char} {t : Setting}
    (h : Flag.ofLetter? c = some (.setting t)) : t ≠ s := by
  rintro rfl
  simpa [Flag.letter?, hs] using List.find?_some h

/-- Letters give no value to a setting without one. -/
theorem value_notMem_letters (hs : s.text.letter = none) (text : String) (detached : Bool)
    (cs : List Char) : .value s text detached ∉ (letters cs).1 := by
  have hone : ∀ {c : Char} {t : Setting} {given : String},
      Flag.ofLetter? c = some (.setting t) →
        Occurrence.value s text detached ∉ [.value t given false] := by
    intro c t given hflag hmem
    cases List.mem_singleton.mp hmem
    exact setting_ne_of_ofLetter? hs hflag rfl
  fun_induction letters cs with
  | case1 => exact List.not_mem_nil
  | case2 => exact List.not_mem_nil
  | case3 c rest u hu os ending hrest ih =>
    rw [hrest] at ih
    intro hmem
    rcases List.mem_cons.mp hmem with heq | hmem
    · cases heq
    · exact ih hmem
  | case4 => exact List.not_mem_nil
  | case5 c t hflag => exact hone hflag
  | case6 c t hflag => exact hone hflag

theorem letters_ne_wants (hs : s.text.letter = none) (cs : List Char) :
    (letters cs).2 ≠ .wants s := by
  fun_induction letters cs with
  | case3 c rest u hu os ending hrest ih =>
    rw [hrest] at ih
    exact ih
  | case4 c t hflag =>
    intro h
    cases h
    exact setting_ne_of_ofLetter? hs hflag rfl
  | _ => simp

/-- Only a long name with an equals sign gives a value by itself. -/
theorem eq_of_value_mem_argument (hs : s.text.letter = none) {detached : Bool}
    (h : .value s text detached ∈ (argument arg.toList).1) :
    arg = s.option ++ "=" ++ text := by
  unfold argument at h
  split at h
  next cs harg =>
    rcases word_cases cs with ⟨t, rest, hcs, hword⟩ | ⟨t, hcs, hword⟩ | ⟨u, hcs, hword⟩ | ⟨r, hword⟩
    all_goals rw [hword] at h
    · cases List.mem_singleton.mp h
      rw [← String.toList_inj, harg, hcs]
      simp [s.toList_option]
    · cases h
    · cases List.mem_singleton.mp h
    · cases h
  next c cs harg => exact absurd h (value_notMem_letters hs text detached _)
  next => cases h

/-- An argument has the value that it gives by itself. -/
theorem value?_argument (hs : s.text.letter = none) (arg : String) :
    (argument arg.toList).1.filterMap (Occurrence.value? s) = (s.attached? arg).toList := by
  cases harg : s.attached? arg with
  | some text =>
    rw [Setting.attached?_eq_some_iff.mp harg, argument_attached]
    simp [Occurrence.value?]
  | none =>
    refine List.filterMap_eq_nil_iff.mpr fun o ho => ?_
    unfold Occurrence.value?
    split
    next t text detached =>
      split
      next heq =>
        subst heq
        rw [Setting.attached?_eq_some_iff.mpr (eq_of_value_mem_argument hs ho)] at harg
        cases harg
      next => rfl
    next => rfl

/-- Only its long name lets a setting take the next argument. -/
theorem ending_argument_iff (hs : s.text.letter = none) :
    (argument arg.toList).2 = .wants s ↔ arg = s.option := by
  constructor
  · intro h
    unfold argument at h
    split at h
    next cs harg =>
      rcases word_cases cs with ⟨t, rest, hcs, hword⟩ | ⟨t, hcs, hword⟩ | ⟨u, hcs, hword⟩ |
        ⟨r, hword⟩
      all_goals
        rw [hword] at h
        cases h
      rw [← String.toList_inj, harg, hcs, s.toList_option]
    next c cs harg => exact absurd h (letters_ne_wants hs _)
    next => cases h
  · rintro rfl
    rw [argument_option]

/-- An argument that can be a value is none of the options that have one. -/
theorem values_cons_of_isValue (h : isValue arg = true) (rest : List String) :
    s.values (arg :: rest) = s.values rest := by
  have hdashes : ∀ text, arg ≠ s.option ++ text := by
    rintro text rfl
    simp [isValue, s.toList_option] at h
  have hoption : arg ≠ s.option := fun heq => hdashes "" (by simpa using heq)
  have hattached : s.attached? arg = none := by
    cases harg : s.attached? arg with
    | none => rfl
    | some text =>
      rw [Setting.attached?_eq_some_iff, String.append_assoc] at harg
      exact absurd harg (hdashes _)
  rw [Setting.values, if_neg hoption, hattached]
  rfl

theorem values_dashes (s : Setting) : s.values ["--"] = [] := by
  cases s <;> decide

/-- What is read from all arguments has the values that they give. -/
theorem value?_occurrences (hs : s.text.letter = none) {args : List String}
    (hread : (Reading.ofArguments args).refusal = none)
    (hmissing : ∀ t, .missing t ∉ (Reading.ofArguments args).occurrences) :
    (Reading.ofArguments args).occurrences.filterMap (Occurrence.value? s) = s.values args := by
  fun_induction Reading.ofArguments args with
  | case1 => rfl
  | case2 rest =>
    cases rest with
    | nil => exact (values_dashes s).symm
    | cons text more => simp at hread
  | case3 arg rest hdash os hos ih =>
    have harg := value?_argument hs arg
    rw [hos] at harg
    have hoption : arg ≠ s.option := by
      rintro rfl
      rw [argument_option] at hos
      cases hos
    simp only [Reading.append, List.mem_append, not_or] at hread hmissing ⊢
    rw [List.filterMap_append, harg, ih hread fun t => (hmissing t).2, Setting.values,
      if_neg hoption]
  | case4 arg rest hdash os r hos => simp at hread
  | case5 arg hdash os t hos =>
    exact absurd (List.mem_append_right os List.mem_cons_self) (hmissing t)
  | case6 arg hdash os t hos text more hvalue ih =>
    have harg := value?_argument hs arg
    have hending : (argument arg.toList).2 = .wants s ↔ arg = s.option := ending_argument_iff hs
    rw [hos] at harg hending
    simp only [Reading.append] at hread hmissing ⊢
    obtain ⟨hrest, hoccurrences⟩ := occurrences_await hread
    simp only [hoccurrences, List.mem_append, List.mem_cons, not_or] at hmissing
    rw [hoccurrences, List.filterMap_append, harg, Setting.values, values_cons_of_isValue hvalue,
      List.filterMap_cons, ih hrest fun u => (hmissing u).2.2]
    by_cases ht : t = s
    · -- the next argument is the value
      subst ht
      have hoption : arg = t.option := hending.mp rfl
      subst hoption
      have hnone : t.attached? t.option = none := by
        rw [Setting.attached?, (Text.cut_eq_none_iff '=').mpr t.equals_notMem_option]
      simp [Occurrence.value?, hnone]
    · have hoption : arg ≠ s.option := fun heq => ht (by simpa using hending.mpr heq)
      simp [Occurrence.value?, ht, hoption]
  | case7 arg hdash os t hos text more hvalue ih =>
    simp only [Reading.append] at hread hmissing
    obtain ⟨-, hoccurrences⟩ := occurrences_await hread
    rw [hoccurrences] at hmissing
    exact absurd (List.mem_append_right os List.mem_cons_self) (hmissing t)

end

end PgMetrics.CommandLine
