import PgMetrics.Proofs.Exposition.Grouping
import PgMetrics.Proofs.Exposition.Series

/-! # When registering fails

Families are registered in the order in which their names first appear, and only its first member can
have a family refused: for an empty help, an illegal name, a label name that is illegal or repeated,
or a name that is taken, whichever is met first in this order.  The first refusal ends the
registration; the families before it stay registered.

The other members of a family are harmless.  A metric is only given values for as many labels as it
has, and a counter is only moved forward, by a finite amount.
-/
namespace PgMetrics.Exposition

/-- The observations that are the first of their name, in order. -/
def leaders : List Observation → List Observation
  | [] => []
  | o :: rest => o :: (leaders rest).filter fun p => p.name ≠ o.name

def familyOf (os : List Observation) (o : Observation) : Family :=
  ⟨o, (os.filter fun p => p.name = o.name).tail⟩

def declarationOf (o : Observation) : Declaration := ⟨o.name, o.help, o.kind, o.labelNames⟩

def LegalLabels (ls : List String) : Prop := (∀ l ∈ ls, isLabelName l = true) ∧ ls.Nodup

/-- A declaration is refused for the first check that it fails, names in `taken` being taken. -/
inductive Declaration.Refused (taken : List String) (d : Declaration) : Fault → Prop
  | emptyHelp : d.help = "" → Refused taken d .emptyHelp
  | metricName : d.help ≠ "" → isMetricName d.name = false → Refused taken d (.metricName d.name)
  | labelName {before : List String} {l : String} {after : List String} : d.help ≠ "" →
      isMetricName d.name = true → d.labelNames = before ++ l :: after → LegalLabels before →
      isLabelName l = false → Refused taken d (.labelName l)
  | repeatedLabel {before : List String} {l : String} {after : List String} : d.help ≠ "" →
      isMetricName d.name = true → d.labelNames = before ++ l :: after → LegalLabels before →
      isLabelName l = true → l ∈ before → Refused taken d (.repeatedLabel l)
  | alreadyRegistered : d.help ≠ "" → isMetricName d.name = true → LegalLabels d.labelNames →
      d.name ∈ taken → Refused taken d .alreadyRegistered

section Labels
variable {ls seen : List String} {cause : Fault}

/-- Legal label names that have not been seen are passed over. -/
theorem labelFault?_append {before : List String} (h : LegalLabels before)
    (hnew : ∀ l ∈ before, l ∉ seen) (rest : List String) :
    labelFault? seen (before ++ rest) = labelFault? (before.reverse ++ seen) rest := by
  induction before generalizing seen with
  | nil => rfl
  | cons l before ih =>
    obtain ⟨hlegal, hnodup⟩ := h
    rw [List.forall_mem_cons] at hlegal hnew
    rw [List.nodup_cons] at hnodup
    have hnew' : ∀ x ∈ before, x ∉ l :: seen := by
      intro x hx hmem
      rcases List.mem_cons.mp hmem with rfl | hmem
      · exact hnodup.1 hx
      · exact hnew.2 x hx hmem
    rw [List.cons_append, labelFault?, if_neg (by simp [hlegal.1]), if_neg hnew.1,
      ih ⟨hlegal.2, hnodup.2⟩ hnew', List.reverse_cons, List.append_assoc, List.singleton_append]

theorem exists_of_labelFault? (h : labelFault? seen ls = some cause) :
    ∃ before l after, ls = before ++ l :: after ∧ LegalLabels before ∧ (∀ x ∈ before, x ∉ seen) ∧
      (isLabelName l = false ∧ cause = .labelName l ∨
        isLabelName l = true ∧ (l ∈ seen ∨ l ∈ before) ∧ cause = .repeatedLabel l) := by
  induction ls generalizing seen with
  | nil => cases h
  | cons l rest ih =>
    have hnone : LegalLabels [] ∧ ∀ x ∈ ([] : List String), x ∉ seen :=
      ⟨⟨fun _ hx => absurd hx List.not_mem_nil, List.nodup_nil⟩,
        fun _ hx => absurd hx List.not_mem_nil⟩
    unfold labelFault? at h
    split at h
    · rename_i hillegal
      cases h
      exact ⟨[], l, rest, rfl, hnone.1, hnone.2, Or.inl ⟨by simpa using hillegal, rfl⟩⟩
    · rename_i hlegal
      have hl : isLabelName l = true := by simpa using hlegal
      split at h
      · rename_i hseen
        cases h
        exact ⟨[], l, rest, rfl, hnone.1, hnone.2, Or.inr ⟨hl, Or.inl hseen, rfl⟩⟩
      · rename_i hnew
        obtain ⟨before, l', after, rfl, hbefore, hfresh, hcause⟩ := ih h
        refine ⟨l :: before, l', after, rfl, ⟨List.forall_mem_cons.mpr ⟨hl, hbefore.1⟩, ?_⟩, ?_, ?_⟩
        · rw [List.nodup_cons]
          exact ⟨fun hmem => hfresh l hmem List.mem_cons_self, hbefore.2⟩
        · exact List.forall_mem_cons.mpr
            ⟨hnew, fun x hx hseen => hfresh x hx (List.mem_cons_of_mem _ hseen)⟩
        · rcases hcause with hcause | ⟨hl', hmem, hcause⟩
          · exact Or.inl hcause
          · refine Or.inr ⟨hl', ?_, hcause⟩
            rcases hmem with hmem | hmem
            · rcases List.mem_cons.mp hmem with rfl | hseen
              · exact Or.inr List.mem_cons_self
              · exact Or.inl hseen
            · exact Or.inr (List.mem_cons_of_mem _ hmem)

end Labels

/-- What a declaration is refused for is its own fault, or else that its name is taken. -/
theorem Declaration.refused_iff {taken : List String} {d : Declaration} {cause : Fault} :
    d.Refused taken cause ↔ d.fault? = some cause ∨
      d.fault? = none ∧ d.name ∈ taken ∧ cause = .alreadyRegistered := by
  constructor
  · intro h
    cases h with
    | emptyHelp hhelp => exact Or.inl (by simp [fault?, hhelp])
    | metricName hhelp hname => exact Or.inl (by simp [fault?, hhelp, hname])
    | labelName hhelp hname hlabels hbefore hl =>
      left
      simp only [fault?, hhelp, hname, if_false, Bool.not_true, Bool.false_eq_true, hlabels]
      rw [labelFault?_append hbefore fun _ _ => List.not_mem_nil, labelFault?]
      simp [hl]
    | repeatedLabel hhelp hname hlabels hbefore hl hmem =>
      left
      simp only [fault?, hhelp, hname, if_false, Bool.not_true, Bool.false_eq_true, hlabels]
      rw [labelFault?_append hbefore fun _ _ => List.not_mem_nil, labelFault?]
      simp [hl, hmem]
    | alreadyRegistered hhelp hname hlabels htaken =>
      exact Or.inr ⟨Declaration.fault?_eq_none_iff.mpr ⟨hhelp, hname, hlabels⟩, htaken, rfl⟩
  · rintro (hfault | ⟨hlegal, htaken, rfl⟩)
    · unfold fault? at hfault
      split at hfault
      · rename_i hhelp
        cases hfault
        exact .emptyHelp hhelp
      · rename_i hhelp
        split at hfault
        · rename_i hname
          cases hfault
          exact .metricName hhelp (by simpa using hname)
        · rename_i hname
          have hname : isMetricName d.name = true := by simpa using hname
          obtain ⟨before, l, after, hlabels, hbefore, _, hcause⟩ := exists_of_labelFault? hfault
          rcases hcause with ⟨hl, rfl⟩ | ⟨hl, hmem, rfl⟩
          · exact .labelName hhelp hname hlabels hbefore hl
          · exact .repeatedLabel hhelp hname hlabels hbefore hl
              (hmem.resolve_left List.not_mem_nil)
    · obtain ⟨hhelp, hname, hlabels⟩ := Declaration.fault?_eq_none_iff.mp hlegal
      exact .alreadyRegistered hhelp hname hlabels htaken

section Leaders

theorem leaders_concat (os : List Observation) (o : Observation) :
    leaders (os ++ [o]) =
      if o.name ∈ os.map Observation.name then leaders os else leaders os ++ [o] := by
  induction os with
  | nil => rfl
  | cons p rest ih =>
    rw [List.cons_append, leaders, ih, leaders]
    by_cases hp : o.name = p.name
    · have hmem : o.name ∈ (p :: rest).map Observation.name := hp ▸ List.mem_cons_self
      rw [if_pos hmem]
      split
      · rfl
      · simp [hp]
    · have hmem : o.name ∈ (p :: rest).map Observation.name ↔
          o.name ∈ rest.map Observation.name := by
        rw [List.map_cons, List.mem_cons, or_iff_right hp]
      simp only [hmem]
      split
      · rfl
      · simp [hp]

theorem firsts_place (o : Observation) (fs : List Family) :
    (place o fs).map Family.first =
      if o.name ∈ fs.map Family.name then fs.map Family.first
      else fs.map Family.first ++ [o] := by
  induction fs with
  | nil => rfl
  | cons f rest ih =>
    by_cases h : f.name = o.name
    · simp [place, h, Family.add]
    · simp only [place, h, if_false, List.map_cons, ih, List.mem_cons, Ne.symm h, false_or]
      split <;> simp

theorem firsts_group (os : List Observation) : (group os).map Family.first = leaders os := by
  induction os using List.reverseRecOn with
  | nil => rfl
  | append_singleton rest o ih =>
    rw [group_concat, firsts_place, leaders_concat, ih]
    simp only [mem_names_group_iff]

/-- There is one family for each leader, with the observations of its name. -/
theorem group_eq_map (os : List Observation) : group os = (leaders os).map (familyOf os) := by
  have hfamily : ∀ f ∈ group os, familyOf os f.first = f := by
    intro f hf
    have hmembers := members_of_mem_group hf
    have htail : (os.filter fun p => p.name = f.first.name).tail = f.rest := by
      rw [← show f.members.tail = f.rest from rfl, hmembers]
      rfl
    rw [familyOf, htail]
  calc group os = (group os).map (familyOf os ∘ Family.first) :=
        (List.map_congr_left hfamily).trans (List.map_id _) |>.symm
    _ = ((group os).map Family.first).map (familyOf os) := List.map_map.symm
    _ = (leaders os).map (familyOf os) := by rw [firsts_group]

end Leaders

/-- What a metric is never asked for: a series of a wrong number of label values, and a counter that
moves back or by no finite amount. -/
inductive Misuse where
  | labelCount (expected given : Nat)
  | movement (amount : Float)

def Metric.setChecked (m : Metric) (values : List String) (x : Float) : Except Misuse Metric :=
  if values.length ≠ m.declaration.labelNames.length then
    .error (.labelCount m.declaration.labelNames.length values.length)
  else if !admissible m.declaration.kind x then .error (.movement x)
  else .ok (m.set values x)

def Family.metricChecked (f : Family) : Except Misuse Metric :=
  f.accepted.foldlM (fun m o => m.setChecked o.labelValues o.value) (Metric.new f.declaration)

namespace Registry

def registerFamiliesChecked (r : Registry) :
    List Family → Except Misuse (Registry × Option (String × Fault))
  | [] => .ok (r, none)
  | f :: rest =>
    match f.declaration.fault? with
    | some fault => .ok (r, some (f.name, fault))
    | none =>
      f.metricChecked.bind fun m =>
        match r.register m with
        | .ok r => registerFamiliesChecked r rest
        | .error fault => .ok (r, some (f.name, fault))

def registerAllChecked (r : Registry) (os : List Observation) :
    Except Misuse (Registry × Option (String × Fault)) :=
  r.registerFamiliesChecked (group os)

end Registry

section Checked

theorem Metric.setChecked_eq_ok {m : Metric} {values : List String} {x : Float}
    (hlength : values.length = m.declaration.labelNames.length)
    (hx : admissible m.declaration.kind x = true) : m.setChecked values x = .ok (m.set values x) := by
  rw [setChecked, if_neg (not_not_intro hlength), hx]
  rfl

theorem foldlM_setChecked {os : List Observation} {m : Metric}
    (h : ∀ o ∈ os, o.labelNames = m.declaration.labelNames ∧
      admissible m.declaration.kind o.value = true) :
    os.foldlM (fun m o => m.setChecked o.labelValues o.value) m =
      .ok (os.foldl (fun m o => m.set o.labelValues o.value) m) := by
  induction os generalizing m with
  | nil => rfl
  | cons o rest ih =>
    obtain ⟨⟨hnames, hx⟩, hrest⟩ := List.forall_mem_cons.mp h
    have hlength : o.labelValues.length = m.declaration.labelNames.length := by
      rw [← hnames, Observation.labelValues, Observation.labelNames, List.length_map,
        List.length_map]
    rw [List.foldlM_cons, Metric.setChecked_eq_ok hlength hx, List.foldl_cons]
    exact ih hrest

/-- The metric of a family is never misused. -/
theorem Family.metricChecked_eq (f : Family) : f.metricChecked = .ok f.metric := by
  refine foldlM_setChecked fun o ho => ?_
  obtain ⟨_, _, hnames, hx⟩ := (f.mem_accepted_iff o).mp ho
  exact ⟨hnames, hx⟩

theorem Registry.registerFamiliesChecked_eq (r : Registry) (fs : List Family) :
    r.registerFamiliesChecked fs = .ok (r.registerFamilies fs) := by
  induction fs generalizing r with
  | nil => rfl
  | cons f rest ih =>
    unfold registerFamiliesChecked registerFamilies registerFamily
    cases f.declaration.fault? with
    | some fault => rfl
    | none =>
      rw [f.metricChecked_eq]
      change (match r.register f.metric with
        | .ok r => r.registerFamiliesChecked rest
        | .error fault => .ok (r, some (f.name, fault))) = _
      cases r.register f.metric with
      | ok r' => exact ih r'
      | error fault => rfl

end Checked

namespace Registry
variable {r : Registry} {fs : List Family}

def Refuses (r : Registry) (o : Observation) (cause : Fault) : Prop :=
  (declarationOf o).Refused (r.metrics.map Metric.name) cause

/-- What registering observations has to come to: the leaders decide. -/
inductive Settles (r : Registry) (os : List Observation) : Registry × Option Failure → Prop
  | registered : (∀ o ∈ leaders os, ∀ cause, ¬ r.Refuses o cause) →
      Settles r os (⟨r.metrics ++ (leaders os).map fun o => (familyOf os o).metric⟩, none)
  | refused {before : List Observation} {o : Observation} {after : List Observation}
      {cause : Fault} : leaders os = before ++ o :: after →
      (∀ p ∈ before, ∀ cause, ¬ r.Refuses p cause) → r.Refuses o cause →
      Settles r os (⟨r.metrics ++ before.map fun p => (familyOf os p).metric⟩,
        some ⟨"Failed to register " ++ o.name, [cause.message]⟩)

def report (r : Registry) (os : List Observation) : Registry × Option Failure :=
  ((r.registerAll os).1, (r.registerAll os).2.map fun (name, cause) => familyFailure name cause)

theorem registerFamily_eq_error_iff {f : Family} {cause : Fault} :
    r.registerFamily f = .error cause ↔
      f.declaration.Refused (r.metrics.map Metric.name) cause := by
  rw [Declaration.refused_iff, registerFamily]
  cases hfault : f.declaration.fault? with
  | some fault => simp
  | none =>
    have htaken : r.contains f.metric.name = true ↔
        f.declaration.name ∈ r.metrics.map Metric.name := by
      rw [r.contains_iff, f.name_metric, List.mem_map]
      rfl
    rw [← htaken]
    simp only [register, reduceCtorEq, false_or, true_and]
    cases r.contains f.metric.name with
    | true => simp [eq_comm]
    | false => simp

/-- Families that are not refused are registered, whatever follows. -/
theorem registerFamilies_append {before rest : List Family}
    (hnames : (before.map Family.name).Nodup)
    (h : ∀ f ∈ before, ∀ cause, ¬ f.declaration.Refused (r.metrics.map Metric.name) cause) :
    r.registerFamilies (before ++ rest) =
      registerFamilies ⟨r.metrics ++ before.map Family.metric⟩ rest := by
  induction before generalizing r with
  | nil => simp
  | cons f before ih =>
    obtain ⟨hf, hbefore⟩ := List.forall_mem_cons.mp h
    rw [List.map_cons, List.nodup_cons] at hnames
    cases hregister : r.registerFamily f with
    | error cause => exact absurd (registerFamily_eq_error_iff.mp hregister) (hf cause)
    | ok r' =>
      obtain ⟨_, _, rfl⟩ := registerFamily_eq_ok hregister
      have hlater : ∀ g ∈ before, ∀ cause, ¬ g.declaration.Refused
          ((r.metrics ++ [f.metric]).map Metric.name) cause := by
        intro g hg cause hrefused
        have hne : g.declaration.name ≠ f.name :=
          fun heq => hnames.1 (heq ▸ List.mem_map_of_mem (f := Family.name) hg)
        refine hbefore g hg cause (Declaration.refused_iff.mpr ?_)
        rw [Declaration.refused_iff] at hrefused
        simpa [hne] using hrefused
      rw [List.cons_append, registerFamilies, hregister]
      simp only [ih hnames.2 hlater, List.append_assoc, List.singleton_append, List.map_cons]

theorem nodup_names_leaders (os : List Observation) :
    ((leaders os).map Observation.name).Nodup := by
  have hnames := nodup_names_group os
  rwa [group_eq_map, List.map_map] at hnames

theorem report_eq_of_settles {os : List Observation} {outcome : Registry × Option Failure}
    (h : r.Settles os outcome) : r.report os = outcome := by
  have hnames := nodup_names_leaders os
  have hgroup := group_eq_map os
  cases h with
  | registered hfree =>
    have hregister : r.registerFamilies (group os ++ []) = _ :=
      registerFamilies_append (nodup_names_group os) (hgroup ▸ List.forall_mem_map.mpr hfree)
    rw [List.append_nil, hgroup, List.map_map] at hregister
    rw [report, registerAll, hgroup, hregister]
    rfl
  | @refused before o after cause hleaders hfree hrefused =>
    rw [hleaders, List.map_append, List.nodup_append] at hnames
    have hbefore : ((before.map (familyOf os)).map Family.name).Nodup := by
      rw [List.map_map]
      exact hnames.1
    have hregister : r.registerFamilies
        (before.map (familyOf os) ++ familyOf os o :: after.map (familyOf os)) = _ :=
      registerFamilies_append hbefore (List.forall_mem_map.mpr hfree)
    have hother : o.name ∉ before.map Observation.name :=
      fun hmem => hnames.2.2 _ hmem _ List.mem_cons_self rfl
    have hcause : (⟨r.metrics ++ (before.map (familyOf os)).map Family.metric⟩ :
        Registry).registerFamily (familyOf os o) = .error cause := by
      rw [registerFamily_eq_error_iff, Declaration.refused_iff]
      have hown := Declaration.refused_iff.mp hrefused
      rw [List.map_append, names_metrics, List.map_map]
      simp only [List.mem_append]
      rcases hown with hillegal | ⟨hlegal, htaken, heq⟩
      · exact .inl hillegal
      · exact .inr ⟨hlegal, .inl htaken, heq⟩
    rw [report, registerAll, hgroup, hleaders, List.map_append, List.map_cons, hregister,
      registerFamilies, hcause, List.map_map]
    rfl

theorem exists_settles (r : Registry) (os : List Observation) : ∃ outcome, r.Settles os outcome := by
  classical
  by_cases h : ∀ o ∈ leaders os, ∀ cause, ¬ r.Refuses o cause
  · exact ⟨_, .registered h⟩
  · have hsome : ((leaders os).find? fun o => ∃ cause, r.Refuses o cause).isSome = true := by
      simpa using h
    obtain ⟨o, ho⟩ := Option.isSome_iff_exists.mp hsome
    obtain ⟨hrefused, before, after, hleaders, hbefore⟩ := List.find?_eq_some_iff_append.mp ho
    obtain ⟨cause, hcause⟩ := of_decide_eq_true hrefused
    refine ⟨_, .refused hleaders (fun p hp cause hrefuses => ?_) hcause⟩
    have hfree := hbefore p hp
    simp only [Bool.not_eq_true', decide_eq_false_iff_not, not_exists] at hfree
    exact hfree cause hrefuses

/-- The leaders of the names decide alone how registering ends: it fails iff one of them is refused,
for the first check that the first such one fails, and exactly the families before it stay
registered.  No metric is misused on the way. -/
theorem registerAll_settles (r : Registry) (os : List Observation) :
    (∀ outcome, r.report os = outcome ↔ r.Settles os outcome) ∧
      ((r.report os).2 ≠ none ↔ ∃ o ∈ leaders os, ∃ cause, r.Refuses o cause) ∧
      r.registerAllChecked os = .ok (r.registerAll os) := by
  obtain ⟨ended, hended⟩ := exists_settles r os
  have hreport := report_eq_of_settles hended
  refine ⟨fun outcome => ⟨fun h => ?_, report_eq_of_settles⟩, ?_,
    registerFamiliesChecked_eq r (group os)⟩
  · rw [← h, hreport]
    exact hended
  · rw [hreport]
    cases hended with
    | registered hfree =>
      refine ⟨fun hne => absurd rfl hne, ?_⟩
      rintro ⟨o, ho, cause, hrefused⟩
      exact absurd hrefused (hfree o ho cause)
    | @refused before o after cause hleaders _ hrefused =>
      have ho : o ∈ leaders os := hleaders ▸ List.mem_append_right _ List.mem_cons_self
      exact ⟨fun _ => ⟨o, ho, cause, hrefused⟩, fun _ => Option.some_ne_none _⟩

end Registry
end PgMetrics.Exposition
