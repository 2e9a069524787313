import Mathlib.Data.List.Nodup
import PgMetrics.CommandLine.Settings

/-! # Reading arguments, step by step

What one argument can be, what one occurrence and one variable can do to the settings, and how all
arguments come to settings by such steps.
-/
namespace PgMetrics.CommandLine

theorem Flag.ofName?_eq_some_iff {name : String} {f : Flag} :
    Flag.ofName? name = some f ↔ f ∈ Flag.all ∧ f.name = name := by
  constructor
  · intro h
    exact ⟨List.mem_of_find?_eq_some h, by simpa using List.find?_some h⟩
  · rintro ⟨hf, rfl⟩
    cases hfound : Flag.ofName? f.name with
    | none => simpa using List.find?_eq_none.mp hfound f hf
    | some g =>
      have hname : g.name = f.name := by simpa using List.find?_some hfound
      have hg : g ∈ Flag.all := List.mem_of_find?_eq_some hfound
      rw [List.inj_on_of_nodup_map Flag.names_nodup hg hf hname]

/-- What an argument with two dashes can be: a setting with its value or without one, a switch, or
nothing that has a meaning. -/
theorem word_cases (cs : List Char) :
    (∃ s text, cs = s.text.name.toList ++ '=' :: text ∧
        word cs = ([.value s (String.ofList text) false], .complete)) ∨
      (∃ s, cs = s.text.name.toList ∧ word cs = ([], .wants s)) ∨
      (∃ u, cs = u.name.toList ∧ word cs = ([.switch u true], .complete)) ∨
      ∃ r, word cs = ([], .refused r) := by
  have hname : ∀ {name : List Char} {f : Flag},
      Flag.ofName? (String.ofList name) = some f → name = f.name.toList := by
    intro name f hflag
    rw [(Flag.ofName?_eq_some_iff.mp hflag).2, String.toList_ofList]
  unfold word
  cases hcut : Text.cut '=' cs with
  | some parts =>
    obtain ⟨name, text⟩ := parts
    dsimp only
    cases hflag : Flag.ofName? (String.ofList name) with
    | none => exact Or.inr (Or.inr (Or.inr ⟨_, rfl⟩))
    | some f =>
      cases f with
      | switch u => exact Or.inr (Or.inr (Or.inr ⟨_, rfl⟩))
      | setting s =>
        refine Or.inl ⟨s, text, ?_, rfl⟩
        rw [Text.eq_of_cut hcut, hname hflag]
        rfl
  | none =>
    dsimp only
    cases hflag : Flag.ofName? (String.ofList cs) with
    | none => exact Or.inr (Or.inr (Or.inr ⟨_, rfl⟩))
    | some f =>
      cases f with
      | switch u => exact Or.inr (Or.inr (Or.inl ⟨u, hname hflag, rfl⟩))
      | setting s => exact Or.inr (Or.inl ⟨s, hname hflag, rfl⟩)

/-- Where nothing is refused, an option that waits is acted upon. -/
theorem occurrences_await {o : Occurrence} {r : Reading} (h : (r.await o).refusal = none) :
    r.refusal = none ∧ (r.await o).occurrences = o :: r.occurrences := by
  unfold Reading.await at h ⊢
  split at h
  next hstop => simp [h] at hstop
  next hgo =>
    rw [if_neg hgo]
    exact ⟨h, rfl⟩

namespace Settings

section
variable {given after : Settings} {s : Setting} {text : String}

theorem put_eq_ok_iff : given.put s text = .ok after ↔ given.put? s text = some after := by
  unfold put
  cases given.put? s text <;> simp

/-- What an occurrence that does not stop can do. -/
theorem act_cases {o : Occurrence} (h : given.act o = .ok after) :
    (∃ s text detached, o = .value s text detached ∧ ¬ (given.has s && !s.isList) = true ∧
        given.put s text = .ok after) ∨
      (∃ long, o = .switch .verbose long ∧
        after = { given with verbosity := min maxVerbosity (given.verbosity + 1) }) ∨
      ∃ name on long, o = .switch (.collector name on) long ∧
        given.collectors.get? name ≠ some on ∧
        after = { given with collectors := given.collectors.put name on } := by
  unfold act at h
  split at h
  next => cases h
  next s text detached =>
    split at h
    next => cases h
    next hrepeated => exact Or.inl ⟨s, text, detached, rfl, hrepeated, h⟩
  next => cases h
  next => cases h
  next long =>
    cases h
    exact Or.inr (Or.inl ⟨long, rfl, rfl⟩)
  next name on long =>
    split at h
    next => cases h
    next hrepeated =>
      cases h
      exact Or.inr (Or.inr ⟨name, on, long, rfl, hrepeated, rfl⟩)

theorem actAll_cons_eq_ok_iff {o : Occurrence} {os : List Occurrence} :
    given.actAll (o :: os) = .ok after ↔
      ∃ next, given.act o = .ok next ∧ next.actAll os = .ok after := by
  rw [actAll]
  cases given.act o <;> simp

def fallBack (env : Environment) (given : Settings) (s : Setting) : Except Stop Settings :=
  if given.has s then .ok given
  else
    match env.get? s.text.variableName with
    | none => .ok given
    | some text => given.put s text

theorem eq_or_put_of_fallBack {env : Environment} (h : given.fallBack env s = .ok after) :
    after = given ∨ ∃ text, given.put s text = .ok after := by
  unfold fallBack at h
  split at h
  · cases h
    exact Or.inl rfl
  · split at h
    next =>
      cases h
      exact Or.inl rfl
    next text _ => exact Or.inr ⟨text, h⟩

theorem complete_cons_eq_ok_iff {env : Environment} {settings : List Setting} :
    given.complete env (s :: settings) = .ok after ↔
      ∃ next, given.fallBack env s = .ok next ∧ next.complete env settings = .ok after := by
  rw [complete, fallBack]
  split
  next => simp
  next =>
    cases env.get? s.text.variableName with
    | none => simp
    | some text => cases hput : given.put s text <;> simp [hput]

theorem ofArguments?_eq_ok_iff {env : Environment} {args : List String} :
    ofArguments? env args = .ok given ↔ (Reading.ofArguments args).refusal = none ∧ ∃ read,
      actAll {} (Reading.ofArguments args).occurrences = .ok read ∧
        read.complete env Setting.all = .ok given := by
  unfold ofArguments?
  cases hread : actAll {} (Reading.ofArguments args).occurrences with
  | error stop => simp [hread]
  | ok read => cases hrefusal : (Reading.ofArguments args).refusal <;> simp [hread, hrefusal]

end

end Settings
end PgMetrics.CommandLine
