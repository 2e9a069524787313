import PgMetrics.Configuration
import PgMetrics.Proofs.CommandLine.Values
import PgMetrics.Proofs.NameList

/-! # Settings that are lists

The values that the arguments give such a setting add up in their order, each split at its commas;
without one the variable counts, and without that the default.
-/
namespace PgMetrics.CommandLine

theorem Setting.isList_iff {s : Setting} :
    s.isList = true ↔ s = .excludedDatabases ∨ s = .cachedScrapers := by
  simp [isList]

theorem Setting.letter_of_isList {s : Setting} (hs : s.isList = true) : s.text.letter = none := by
  rcases Setting.isList_iff.mp hs with rfl | rfl <;> rfl

theorem Setting.variableName_ne {s t : Setting} :
    t ≠ s → t.text.variableName ≠ s.text.variableName := by
  cases s <;> cases t <;> decide

theorem Setting.mem_all (s : Setting) : s ∈ Setting.all := by
  cases s <;> decide

namespace Settings

def names? (given : Settings) : Setting → Option (List String)
  | .excludedDatabases => given.excludedDatabases
  | .cachedScrapers => given.cachedScrapers
  | _ => none

def withNames (given : Settings) (s : Setting) (names : List String) : Settings :=
  match s with
  | .excludedDatabases => { given with excludedDatabases := some names }
  | .cachedScrapers => { given with cachedScrapers := some names }
  | _ => given

section
variable {s t : Setting} {given after : Settings} {names : List String} {text : String}

theorem names?_withNames (hs : s.isList = true) :
    (given.withNames s names).names? s = some names := by
  rcases Setting.isList_iff.mp hs with rfl | rfl <;> rfl

theorem withNames_withNames (names' : List String) :
    (given.withNames s names).withNames s names' = given.withNames s names' := by
  cases s <;> rfl

theorem has_eq (hs : s.isList = true) : given.has s = (given.names? s).isSome := by
  rcases Setting.isList_iff.mp hs with rfl | rfl <;> rfl

theorem has_withNames_of_ne (ht : t ≠ s) : (given.withNames s names).has t = given.has t := by
  cases s
  case excludedDatabases | cachedScrapers => cases t <;> simp [has, withNames] at ht ⊢
  all_goals rfl

/-- A list grows by the fields of the text. -/
theorem put_list (hs : s.isList = true) : given.put s text =
    .ok (given.withNames s ((given.names? s).getD [] ++ NameList.splitCommas text)) := by
  rcases Setting.isList_iff.mp hs with rfl | rfl <;> rfl

theorem put?_withNames_of_ne (ht : t ≠ s) :
    (given.withNames s names).put? t text = (given.put? t text).map (·.withNames s names) := by
  cases s
  case excludedDatabases | cachedScrapers =>
    cases t <;> simp [put?, withNames, Function.comp_def] at ht ⊢
  all_goals exact Option.map_id'.symm

/-- The other settings take their values in the same way, whatever the list is. -/
theorem put_withNames_of_ne (ht : t ≠ s) (h : given.put t text = .ok after) :
    (given.withNames s names).put t text = .ok (after.withNames s names) := by
  rw [put_eq_ok_iff] at h ⊢
  rw [put?_withNames_of_ne ht, h]
  rfl

theorem names?_put_of_ne (ht : t ≠ s) (h : given.put t text = .ok after) :
    after.names? s = given.names? s := by
  rw [put_eq_ok_iff] at h
  cases t
  case port | cacheTtl | scrapeTimeout | connectTimeout =>
    obtain ⟨n, -, rfl⟩ := Option.map_eq_some_iff.mp h
    cases s <;> rfl
  all_goals
    cases h
    cases s <;> simp [names?] at ht ⊢

theorem names?_act {o : Occurrence} (hs : s.isList = true) (h : given.act o = .ok after) :
    after.names? s = (o.value? s).toList.foldl addNames (given.names? s) := by
  rcases act_cases h with ⟨t, text, detached, rfl, -, hput⟩ | ⟨long, rfl, rfl⟩ |
    ⟨name, on, long, rfl, -, rfl⟩
  · by_cases ht : t = s
    · subst ht
      rw [put_list hs] at hput
      cases hput
      simp [names?_withNames hs, Occurrence.value?, addNames]
    · rw [names?_put_of_ne ht hput]
      simp [Occurrence.value?, ht]
  · cases s <;> rfl
  · cases s <;> rfl

theorem names?_actAll {os : List Occurrence} (hs : s.isList = true)
    (h : given.actAll os = .ok after) :
    after.names? s = (os.filterMap (Occurrence.value? s)).foldl addNames (given.names? s) := by
  induction os generalizing given with
  | nil =>
    cases h
    rfl
  | cons o rest ih =>
    obtain ⟨next, hact, hrest⟩ := actAll_cons_eq_ok_iff.mp h
    rw [ih hrest, names?_act hs hact, List.filterMap_cons]
    cases o.value? s <;> rfl

theorem missing_notMem_of_actAll {os : List Occurrence} (h : given.actAll os = .ok after)
    (t : Setting) : .missing t ∉ os := by
  induction os generalizing given with
  | nil => exact List.not_mem_nil
  | cons o rest ih =>
    obtain ⟨next, hact, hrest⟩ := actAll_cons_eq_ok_iff.mp h
    intro hmem
    rcases List.mem_cons.mp hmem with rfl | hmem
    · cases hact
    · exact ih hrest hmem

/-- Names for a list only matter to the occurrences of that list. -/
theorem act_withNames {o : Occurrence} (ho : o.value? s = none) (h : given.act o = .ok after) :
    (given.withNames s names).act o = .ok (after.withNames s names) := by
  rcases act_cases h with ⟨t, text, detached, rfl, hrepeated, hput⟩ | ⟨long, rfl, rfl⟩ |
    ⟨name, on, long, rfl, hrepeated, rfl⟩
  · have ht : t ≠ s := by simpa [Occurrence.value?] using ho
    rw [act, has_withNames_of_ne ht, if_neg hrepeated]
    exact put_withNames_of_ne ht hput
  · cases s <;> rfl
  · have hcollectors : (given.withNames s names).collectors = given.collectors := by
      cases s <;> rfl
    rw [act, hcollectors, if_neg hrepeated]
    cases s <;> rfl

theorem actAll_withNames {os : List Occurrence} (hos : os.filterMap (Occurrence.value? s) = [])
    (h : given.actAll os = .ok after) :
    (given.withNames s names).actAll os = .ok (after.withNames s names) := by
  induction os generalizing given with
  | nil =>
    cases h
    rfl
  | cons o rest ih =>
    rw [List.filterMap_eq_nil_iff, List.forall_mem_cons] at hos
    obtain ⟨next, hact, hrest⟩ := actAll_cons_eq_ok_iff.mp h
    rw [actAll_cons_eq_ok_iff]
    exact ⟨_, act_withNames hos.1 hact, ih (List.filterMap_eq_nil_iff.mpr hos.2) hrest⟩

/-- Values of a list add up. -/
theorem actAll_values {texts : List String} (hs : s.isList = true) (hne : texts ≠ []) :
    given.actAll (texts.map fun text => .value s text false) =
      .ok (given.withNames s ((given.names? s).getD [] ++ texts.flatMap NameList.splitCommas)) := by
  have hact : ∀ (given : Settings) (text : String), given.act (.value s text false) =
      .ok (given.withNames s ((given.names? s).getD [] ++ NameList.splitCommas text)) := by
    intro given text
    simp only [act, hs, Bool.not_true, Bool.and_false, Bool.false_eq_true, if_false]
    exact put_list hs
  induction texts generalizing given with
  | nil => exact absurd rfl hne
  | cons text rest ih =>
    rw [List.map_cons, actAll, hact, List.flatMap_cons]
    cases rest with
    | nil => simp [actAll]
    | cons next more =>
      dsimp only
      rw [ih (List.cons_ne_nil _ _), names?_withNames hs, withNames_withNames, Option.getD_some,
        List.append_assoc]

section
variable {env : Environment} {settings : List Setting} {next : Settings}

theorem fallBack_self (hs : s.isList = true) : given.fallBack env s =
    .ok (match given.names? s, env.get? s.text.variableName with
      | none, some text => given.withNames s (NameList.splitCommas text)
      | _, _ => given) := by
  rw [fallBack, has_eq hs]
  cases hnames : given.names? s with
  | some names => rfl
  | none =>
    cases env.get? s.text.variableName with
    | none => rfl
    | some text => simp [put_list hs, hnames]

theorem names?_fallBack_self (hs : s.isList = true) (h : given.fallBack env s = .ok next) :
    next.names? s =
      (given.names? s).or ((env.get? s.text.variableName).map NameList.splitCommas) := by
  rw [fallBack_self hs] at h
  cases h
  cases hnames : given.names? s with
  | some names => simpa using hnames
  | none =>
    cases env.get? s.text.variableName with
    | none => simpa using hnames
    | some text => simp [names?_withNames hs]

/-- Names that replace those of a list replace those of its variable. -/
theorem withNames_of_fallBack_self (hs : s.isList = true) (h : given.fallBack env s = .ok next) :
    next.withNames s names = given.withNames s names := by
  rw [fallBack_self hs] at h
  cases h
  split
  · exact withNames_withNames names
  · rfl

theorem names?_fallBack_of_ne (ht : t ≠ s) (h : given.fallBack env t = .ok next) :
    next.names? s = given.names? s := by
  rcases eq_or_put_of_fallBack h with rfl | ⟨text, hput⟩
  · rfl
  · exact names?_put_of_ne ht hput

theorem fallBack_withNames_of_ne (ht : t ≠ s) (h : given.fallBack env t = .ok next) :
    (given.withNames s names).fallBack env t = .ok (next.withNames s names) := by
  unfold fallBack at h ⊢
  rw [has_withNames_of_ne ht]
  split at h
  next hgiven =>
    cases h
    exact if_pos hgiven
  next hgiven =>
    rw [if_neg hgiven]
    split at h
    next =>
      cases h
      rfl
    next => exact put_withNames_of_ne ht h

theorem fallBack_variable_of_ne (ht : t ≠ s) (text : String) :
    given.fallBack ((s.text.variableName, text) :: env) t = given.fallBack env t := by
  rw [fallBack, Environment.get?, List.lookup_cons, beq_false_of_ne (Setting.variableName_ne ht)]
  rfl

/-- The variable of a list counts if nothing was given. -/
theorem names?_complete (hs : s.isList = true) (h : given.complete env settings = .ok after) :
    after.names? s = if s ∈ settings then
      (given.names? s).or ((env.get? s.text.variableName).map NameList.splitCommas)
    else given.names? s := by
  induction settings generalizing given with
  | nil =>
    cases h
    rfl
  | cons t rest ih =>
    obtain ⟨next, hnext, hrest⟩ := complete_cons_eq_ok_iff.mp h
    rw [ih hrest]
    by_cases ht : t = s
    · subst ht
      rw [names?_fallBack_self hs hnext, if_pos List.mem_cons_self]
      split
      · rw [Option.or_assoc, Option.or_self]
      · rfl
    · rw [names?_fallBack_of_ne ht hnext]
      simp [Ne.symm ht]

/-- Names for a list only matter to its own variable, which then does not count. -/
theorem complete_withNames (hs : s.isList = true) (h : given.complete env settings = .ok after) :
    (given.withNames s names).complete env settings = .ok (after.withNames s names) := by
  induction settings generalizing given with
  | nil =>
    cases h
    rfl
  | cons t rest ih =>
    obtain ⟨next, hnext, hrest⟩ := complete_cons_eq_ok_iff.mp h
    rw [complete_cons_eq_ok_iff]
    refine ⟨next.withNames s names, ?_, ih hrest⟩
    by_cases ht : t = s
    · subst ht
      rw [fallBack_self hs, names?_withNames hs, withNames_of_fallBack_self hs hnext]
    · exact fallBack_withNames_of_ne ht hnext

/-- The variable of a list that has been given may have any text. -/
theorem complete_variable_of_given (hs : s.isList = true) (text : String)
    (hgiven : given.names? s ≠ none) (h : given.complete env settings = .ok after) :
    given.complete ((s.text.variableName, text) :: env) settings = .ok after := by
  induction settings generalizing given with
  | nil => exact h
  | cons t rest ih =>
    obtain ⟨next, hnext, hrest⟩ := complete_cons_eq_ok_iff.mp h
    rw [complete_cons_eq_ok_iff]
    by_cases ht : t = s
    · subst ht
      obtain ⟨names, hnames⟩ := Option.ne_none_iff_exists'.mp hgiven
      rw [fallBack_self hs, hnames] at hnext ⊢
      cases hnext
      exact ⟨given, rfl, ih hgiven hrest⟩
    · rw [fallBack_variable_of_ne ht]
      exact ⟨next, hnext, ih (by rwa [names?_fallBack_of_ne ht hnext]) hrest⟩

/-- A variable gives its list the fields of its text and leaves all else as it is. -/
theorem complete_variable (hs : s.isList = true) (text : String) (hmem : s ∈ settings)
    (hnone : given.names? s = none) (h : given.complete env settings = .ok after) :
    given.complete ((s.text.variableName, text) :: env) settings =
      .ok (after.withNames s (NameList.splitCommas text)) := by
  induction settings generalizing given with
  | nil => cases hmem
  | cons t rest ih =>
    obtain ⟨next, hnext, hrest⟩ := complete_cons_eq_ok_iff.mp h
    rw [complete_cons_eq_ok_iff]
    by_cases ht : t = s
    · subst ht
      refine ⟨given.withNames t (NameList.splitCommas text), ?_, ?_⟩
      · rw [fallBack_self hs, hnone]
        simp [Environment.get?]
      · rw [← withNames_of_fallBack_self hs hnext]
        refine complete_variable_of_given hs text ?_ (complete_withNames hs hrest)
        rw [names?_withNames hs]
        exact Option.some_ne_none _
    · rw [fallBack_variable_of_ne ht]
      refine ⟨next, hnext, ih ?_ ?_ hrest⟩
      · exact (List.mem_cons.mp hmem).resolve_left (Ne.symm ht)
      · rw [names?_fallBack_of_ne ht hnext, hnone]

end

section
variable {env : Environment} {args : List String}

theorem foldl_addNames (given : Option (List String)) (texts : List String) :
    texts.foldl addNames given =
      if texts = [] then given
      else some (given.getD [] ++ texts.flatMap NameList.splitCommas) := by
  induction texts generalizing given with
  | nil => rfl
  | cons text rest ih =>
    rw [List.foldl_cons, ih, if_neg (List.cons_ne_nil _ _), List.flatMap_cons, addNames]
    split
    next hrest => simp [hrest]
    next => simp

theorem names?_read {read : Settings} (hs : s.isList = true)
    (hrefusal : (Reading.ofArguments args).refusal = none)
    (h : actAll {} (Reading.ofArguments args).occurrences = .ok read) :
    read.names? s =
      if s.values args = [] then none
      else some ((s.values args).flatMap NameList.splitCommas) := by
  have hfresh : names? {} s = none := by cases s <;> rfl
  rw [names?_actAll hs h, value?_occurrences (Setting.letter_of_isList hs) hrefusal
    (missing_notMem_of_actAll h), foldl_addNames, hfresh]
  rfl

/-- Values count before the variable. -/
theorem names?_ofArguments? (hs : s.isList = true) (h : ofArguments? env args = .ok given) :
    given.names? s =
      if s.values args = [] then
        (env.get? s.text.variableName).map NameList.splitCommas
      else some ((s.values args).flatMap NameList.splitCommas) := by
  obtain ⟨hrefusal, read, hread, hcomplete⟩ := ofArguments?_eq_ok_iff.mp h
  rw [names?_complete hs hcomplete, if_pos s.mem_all, names?_read hs hrefusal hread]
  split <;> rfl

theorem ofArguments_attached (s : Setting) (texts args : List String) :
    Reading.ofArguments (texts.map (s.option ++ "=" ++ ·) ++ args) =
      Reading.append (texts.map fun text => .value s text false) (Reading.ofArguments args) := by
  induction texts with
  | nil => rfl
  | cons text rest ih =>
    have hdashes : s.option ++ "=" ++ text ≠ "--" := by
      intro h
      have htoList := congrArg String.toList h
      simp [s.toList_option] at htoList
    rw [List.map_cons, List.cons_append, Reading.ofArguments, if_neg hdashes, argument_attached]
    dsimp only
    rw [ih]
    rfl

/-- Values for a list that is not given elsewhere change nothing but that list. -/
theorem ofArguments?_attached {texts : List String} (hs : s.isList = true) (hne : texts ≠ [])
    (h : ofArguments? env args = .ok given) (hnone : s.values args = []) :
    ofArguments? env (texts.map (s.option ++ "=" ++ ·) ++ args) =
      .ok (given.withNames s (texts.flatMap NameList.splitCommas)) := by
  obtain ⟨hrefusal, read, hread, hcomplete⟩ := ofArguments?_eq_ok_iff.mp h
  have hvalues := value?_occurrences (Setting.letter_of_isList hs) hrefusal
    (missing_notMem_of_actAll hread)
  rw [hnone] at hvalues
  have hfresh : names? {} s = none := by cases s <;> rfl
  rw [ofArguments?_eq_ok_iff, ofArguments_attached]
  refine ⟨hrefusal, read.withNames s (texts.flatMap NameList.splitCommas), ?_,
    complete_withNames hs hcomplete⟩
  rw [Reading.append, actAll_append, actAll_values hs hne, hfresh]
  exact actAll_withNames hvalues hread

/-- A variable for a list that is not given changes nothing but that list. -/
theorem ofArguments?_variable (hs : s.isList = true) (text : String)
    (h : ofArguments? env args = .ok given) (hnone : s.values args = []) :
    ofArguments? ((s.text.variableName, text) :: env) args =
      .ok (given.withNames s (NameList.splitCommas text)) := by
  obtain ⟨hrefusal, read, hread, hcomplete⟩ := ofArguments?_eq_ok_iff.mp h
  have hnames := names?_read hs hrefusal hread
  rw [if_pos hnone] at hnames
  rw [ofArguments?_eq_ok_iff]
  exact ⟨hrefusal, read, hread, complete_variable hs text s.mem_all hnames hcomplete⟩

end

end
end Settings
end PgMetrics.CommandLine

namespace PgMetrics.Configuration

open CommandLine (Setting Settings)

/-- The configuration that variables and arguments ask for, if they are in order. -/
def requested? (env : Environment) (args : List String) : Option Configuration :=
  (Settings.ofArguments? env args).toOption.bind fun given => (ofSettings? given).toOption

def names (c : Configuration) : Setting → List String
  | .excludedDatabases => c.excluded
  | .cachedScrapers => c.selection.cached
  | _ => []

def withNames (c : Configuration) (s : Setting) (names : List String) : Configuration :=
  match s with
  | .excludedDatabases => { c with excluded := names }
  | .cachedScrapers => { c with selection.cached := names }
  | _ => c

/-- Whether a list is given these entries: by values, in which they may be grouped in any way, or
else by its variable. -/
inductive Gives (s : Setting) (env : Environment) (args xs : List String) : Prop
  | byValues {groups : List (List String)} (hne : groups ≠ []) (hflatten : groups.flatten = xs)
      (hvalues : s.values args = groups.map NameList.joined) : Gives s env args xs
  | byVariable (hnone : s.values args = [])
      (htext : env.get? s.text.variableName = some (NameList.joined xs)) : Gives s env args xs

section
variable {s : Setting} {env : Environment} {args : List String} {c : Configuration}
  {given : Settings}

theorem requested?_eq_some_iff : requested? env args = some c ↔
    ∃ given, Settings.ofArguments? env args = .ok given ∧ ofSettings? given = .ok c := by
  rw [requested?]
  cases Settings.ofArguments? env args with
  | error stop => simp [Except.toOption]
  | ok given => cases hc : ofSettings? given <;> simp [Except.toOption, hc]

theorem names_of_ofSettings? (hs : s.isList = true) (h : ofSettings? given = .ok c) :
    c.names s = namesOr s (given.names? s) := by
  unfold ofSettings? at h
  dsimp only at h
  split at h
  · cases h
  · cases h
    rcases Setting.isList_iff.mp hs with rfl | rfl <;> rfl

theorem ofSettings?_withNames (hs : s.isList = true) (names : List String)
    (h : ofSettings? given = .ok c) :
    ofSettings? (given.withNames s names) = .ok (c.withNames s (NameList.tidy names)) := by
  have hpath : (given.withNames s names).metricsPath = given.metricsPath := by cases s <;> rfl
  unfold ofSettings? at h ⊢
  rw [hpath]
  dsimp only at h ⊢
  split at h
  · cases h
  · cases h
    rcases Setting.isList_iff.mp hs with rfl | rfl <;> rfl

/-- A list that is given has the names of its entries. -/
theorem names_of_gives {xs names : List String} (hs : s.isList = true)
    (hspells : NameList.Spells [] xs names) (hnames : ∀ name ∈ names, ',' ∉ name.toList)
    (hgives : Gives s env args xs) (h : requested? env args = some c) :
    c.names s = NameList.tidy names := by
  obtain ⟨given, hgiven, hc⟩ := requested?_eq_some_iff.mp h
  rw [names_of_ofSettings? hs hc, Settings.names?_ofArguments? hs hgiven, namesOr]
  cases hgives with
  | @byValues groups hne hflatten hvalues =>
    have hsome : groups.map NameList.joined ≠ [] := by simpa using hne
    rw [hvalues, if_neg hsome, Option.getD_some]
    exact (hflatten ▸ hspells).tidy_groups hnames
  | byVariable hnone htext =>
    rw [if_pos hnone, htext, Option.map_some, Option.getD_some]
    exact hspells.tidy_joined hnames

/-- Entries in values change the list to their names, and nothing else. -/
theorem requested?_values {names : List String} {groups : List (List String)} (hs : s.isList = true)
    (hspells : NameList.Spells [] groups.flatten names) (hnames : ∀ name ∈ names, ',' ∉ name.toList)
    (hne : groups ≠ []) (hnone : s.values args = []) (h : requested? env args = some c) :
    requested? env (groups.map (fun group => s.option ++ "=" ++ NameList.joined group) ++ args) =
      some (c.withNames s (NameList.tidy names)) := by
  obtain ⟨given, hgiven, hc⟩ := requested?_eq_some_iff.mp h
  have hsome : groups.map NameList.joined ≠ [] := by simpa using hne
  have hvalues := Settings.ofArguments?_attached hs hsome hgiven hnone
  rw [List.map_map] at hvalues
  rw [requested?_eq_some_iff, ← hspells.tidy_groups hnames]
  exact ⟨_, hvalues, ofSettings?_withNames hs _ hc⟩

/-- Entries in a variable change the list to their names, and nothing else. -/
theorem requested?_variable {xs names : List String} (hs : s.isList = true)
    (hspells : NameList.Spells [] xs names) (hnames : ∀ name ∈ names, ',' ∉ name.toList)
    (hnone : s.values args = []) (h : requested? env args = some c) :
    requested? ((s.text.variableName, NameList.joined xs) :: env) args =
      some (c.withNames s (NameList.tidy names)) := by
  obtain ⟨given, hgiven, hc⟩ := requested?_eq_some_iff.mp h
  have hvariable := Settings.ofArguments?_variable hs (NameList.joined xs) hgiven hnone
  rw [requested?_eq_some_iff, ← hspells.tidy_joined hnames]
  exact ⟨_, hvariable, ofSettings?_withNames hs _ hc⟩

end

/-- Lists mean the same however they are spelled.  Tidying leaves the trimmed names that are not
empty, each once, where it is first seen; a list may be tidied before more is added to it, and the
order of the entries decides no more than the order of the names.  So when entries spell names, with
any blanks, blank entries and repetitions, then the databases to skip and the scrapers to cache are
these names, whether the entries stand in one value, in several with any other options between
them, or in the variable; and such values and variables are always accepted and change nothing
else. -/
theorem lists_agree :
    (∀ xs, FirstSeen (NameList.significant xs) (NameList.tidy xs) ∧
      NameList.tidy (NameList.tidy xs) = NameList.tidy xs) ∧
    (∀ xs ys, NameList.tidy (xs ++ ys) = NameList.tidy (NameList.tidy xs ++ ys) ∧
      ((∀ name, name ∈ NameList.significant xs ↔ name ∈ NameList.significant ys) →
        (NameList.tidy xs).Perm (NameList.tidy ys))) ∧
    ∀ s : Setting, s.isList = true → ∀ names : List String, (∀ name ∈ names, ',' ∉ name.toList) →
      ∀ xs, NameList.Spells [] xs names → ∀ env args c, requested? env args = some c →
        (Gives s env args xs → c.names s = NameList.tidy names) ∧
        (s.values args = [] →
          (∀ groups : List (List String), groups ≠ [] → groups.flatten = xs →
            requested? env
                (groups.map (fun group => s.option ++ "=" ++ NameList.joined group) ++ args) =
              some (c.withNames s (NameList.tidy names))) ∧
          requested? ((s.text.variableName, NameList.joined xs) :: env) args =
            some (c.withNames s (NameList.tidy names))) := by
  refine ⟨fun xs => ⟨NameList.firstSeen_tidy xs, NameList.tidy_idem xs⟩,
    fun xs ys => ⟨(NameList.tidy_tidy_append xs ys).symm, NameList.tidy_perm⟩, ?_⟩
  intro s hs names hnames xs hspells env args c hc
  refine ⟨fun hgives => names_of_gives hs hspells hnames hgives hc, fun hnone => ⟨?_, ?_⟩⟩
  · rintro groups hne rfl
    exact requested?_values hs hspells hnames hne hnone hc
  · exact requested?_variable hs hspells hnames hnone hc

def templates : List String := [" template0 ", "", "app\t", "template0"]

def templateArguments : List String :=
  ["--exclude-databases= template0 ,", "-v", "--exclude-databases", "app\t,template0"]

theorem spells_templates : NameList.Spells [] templates ["template0", "app"] := by
  have hparts : templates =
      [" " ++ "template0" ++ " ", "", "" ++ "app" ++ "\t", "" ++ "template0" ++ ""] := by decide
  have hnone : ∀ c ∈ "".toList, Text.isBlank c = true := List.all_eq_true.mp rfl
  have hspace : ∀ c ∈ " ".toList, Text.isBlank c = true := List.all_eq_true.mp rfl
  have htab : ∀ c ∈ "\t".toList, Text.isBlank c = true := List.all_eq_true.mp rfl
  rw [hparts]
  exact .name hspace hspace (.blank hnone (.name hnone htab (.again hnone hnone (by decide) .done)))

theorem lists_agree_templates :
    ∃ c fresh, requested? [] templateArguments = some c ∧
      c.excluded = ["template0", "app"] ∧
      requested? [("POSTGRES_EXPORTER_EXCLUDE_DATABASES", "postgres")] [] = some fresh ∧
      requested? [("POSTGRES_EXPORTER_EXCLUDE_DATABASES", "postgres")]
          ["--exclude-databases= template0 ,,app\t,template0"] =
        some { fresh with excluded := ["template0", "app"] } ∧
      requested? [("POSTGRES_EXPORTER_EXCLUDE_DATABASES", " template0 ,,app\t,template0"),
          ("POSTGRES_EXPORTER_EXCLUDE_DATABASES", "postgres")] [] =
        some { fresh with excluded := ["template0", "app"] } ∧
      (NameList.tidy ["app", "template0"]).Perm (NameList.tidy ["template0", "app"]) := by
  obtain ⟨-, hsame, hlists⟩ := lists_agree
  have halike := hlists .excludedDatabases rfl ["template0", "app"] (by decide) templates
    spells_templates
  obtain ⟨c, hc⟩ := Option.isSome_iff_exists.mp
    (show (requested? [] templateArguments).isSome = true by decide +kernel)
  obtain ⟨fresh, hfresh⟩ := Option.isSome_iff_exists.mp
    (show (requested? [("POSTGRES_EXPORTER_EXCLUDE_DATABASES", "postgres")] []).isSome = true by
      decide +kernel)
  obtain ⟨hvalues, hvariable⟩ := (halike _ _ _ hfresh).2 rfl
  have hgives : Gives .excludedDatabases [] templateArguments templates :=
    .byValues (List.cons_ne_nil [" template0 ", ""] [["app\t", "template0"]]) (by decide)
      (by decide +kernel)
  have hsame_names : ∀ name, name ∈ NameList.significant ["app", "template0"] ↔
      name ∈ NameList.significant ["template0", "app"] := by
    intro name
    rw [show NameList.significant ["app", "template0"] = ["app", "template0"] by decide,
      show NameList.significant ["template0", "app"] = ["template0", "app"] by decide]
    simp [or_comm]
  refine ⟨c, fresh, hc, ?_, hfresh, ?_, ?_, (hsame _ _).2 hsame_names⟩
  · exact (halike _ _ _ hc).1 hgives
  · exact hvalues [templates] (List.cons_ne_nil _ _) (List.append_nil _)
  · exact hvariable

end PgMetrics.Configuration
