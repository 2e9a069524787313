import PgMetrics.Proofs.Exposition.Arrangement

/-! # Where samples come from

A sample repeats an observation: its name, all of its labels and its value.  This holds where no two
combinations of label values are confused, but for one kind of sample: a counter without labels is
there from the start, at zero, so it is written even if none of its values counts.

An observation that does not count leaves no trace in the text, unless its family is declared
otherwise without it.
-/
namespace PgMetrics.Exposition

def leader? (os : List Observation) (name : String) : Option Observation :=
  os.find? fun o => o.name = name

/-- The observation has the kind and the label names of the first one of its name, and its value may
stand for a metric of that kind. -/
def Counts (os : List Observation) (o : Observation) : Prop :=
  ∃ first, leader? os o.name = some first ∧ o ∈ counted os first

structure Repeats (m : Metric) (s : Sample) (o : Observation) : Prop where
  name : o.name = m.name
  labels : s.labels = sampleLabels o
  value : SameValue s.value o.value

/-- Every sample that is written repeats a single observation that counts. -/
def Genuine (os : List Observation) (r : Registry) : Prop :=
  ∀ m ∈ r.gather, ∀ s ∈ m.samples, ∃ o ∈ os, Counts os o ∧ Repeats m s o

/-- A counter without labels none of whose values counts. -/
def Idle (os : List Observation) (o : Observation) : Prop :=
  o.kind = .counter ∧ o.labelNames = [] ∧ counted os o = []

section Counted
variable {os : List Observation}

theorem counted_congr {p q : Observation} (h : declarationOf p = declarationOf q) :
    counted os p = counted os q := by
  have hname : p.name = q.name := congrArg Declaration.name h
  have hkind : p.kind = q.kind := congrArg Declaration.kind h
  have hlabels : p.labelNames = q.labelNames := congrArg Declaration.labelNames h
  rw [counted, counted, hname, hkind, hlabels]

theorem counted_append (os os' : List Observation) (first : Observation) :
    counted (os ++ os') first = counted os first ++ counted os' first :=
  List.filter_append os os'

theorem counts_of_mem_accepted {f : Family} (hf : f ∈ group os) {o : Observation}
    (ho : o ∈ f.accepted) : o ∈ os ∧ o.name = f.name ∧ Counts os o := by
  obtain ⟨hmem, hname⟩ := (Family.mem_members_iff hf).mp (List.mem_filter.mp ho).1
  refine ⟨hmem, hname, f.first, ?_, ?_⟩
  · rw [hname]
    exact Family.find?_first hf
  · rw [Family.counted_first hf]
    exact ho

theorem mem_accepted_of_counts {f : Family} (hf : f ∈ group os) {o : Observation}
    (hname : o.name = f.name) (ho : Counts os o) : o ∈ f.accepted := by
  obtain ⟨first, hfirst, hcounted⟩ := ho
  rw [hname] at hfirst
  have heq : first = f.first := Option.some.inj (hfirst.symm.trans (Family.find?_first hf))
  rwa [heq, Family.counted_first hf] at hcounted

theorem first_mem_leaders {f : Family} (hf : f ∈ group os) : f.first ∈ leaders os := by
  rw [← firsts_group]
  exact List.mem_map_of_mem hf

end Counted

section Samples
variable {os : List Observation} {f : Family}

/-- What the samples of a family with a value that counts repeat. -/
theorem exists_repeated (hf : f ∈ group os) (hdist : f.Distinguished) (hsome : f.accepted ≠ [])
    {s : Sample} (hs : s ∈ f.metric.samples) : ∃ o ∈ os, Counts os o ∧ Repeats f.metric s o := by
  obtain ⟨t, ht, rfl⟩ := Metric.mem_samples_iff.mp hs
  obtain ⟨o, ho, rfl⟩ := List.mem_map.mp ((Family.series_perm hdist hsome).mem_iff.mp ht)
  have haccepted := mem_of_mem_latest ho
  obtain ⟨hmem, hname, hcounts⟩ := counts_of_mem_accepted hf haccepted
  refine ⟨o, hmem, hcounts, ?_, ?_, ?_⟩
  · rw [hname, f.name_metric]
  · rw [f.declaration_metric, Series.sample, Family.dueSeries, Family.zip_labelValues haccepted,
      sampleLabels]
  · exact sameValue_exposed ((f.mem_accepted_iff o).mp haccepted).2.2.2

/-- A family none of whose values counts has a series only if it is a counter without labels. -/
theorem series_of_accepted_eq_nil (hnone : f.accepted = []) :
    f.metric.series = if f.first.labelNames = [] then [⟨[], 0⟩] else [] := by
  rw [Family.metric, hnone, List.foldl_nil]
  rfl

theorem accepted_ne_nil_of_series (hf : f ∈ group os) (hidle : ¬ Idle os f.first)
    (hseries : f.metric.series ≠ []) : f.accepted ≠ [] := by
  intro hnone
  have hnames : f.first.labelNames = [] := by
    by_contra hnames
    rw [series_of_accepted_eq_nil hnone, if_neg hnames] at hseries
    exact hseries rfl
  exact hidle ⟨Family.kind_eq_counter hnone, hnames, (Family.counted_first hf).trans hnone⟩

/-- A counter without labels is written even if none of its values counts. -/
theorem exists_sample_of_idle (hf : f ∈ group os) (hidle : Idle os f.first) :
    f.accepted = [] ∧ f.metric.series ≠ [] ∧ ∃ s, s ∈ f.metric.samples := by
  have hnone : f.accepted = [] := (Family.counted_first hf).symm.trans hidle.2.2
  have hseries : f.metric.series = [⟨[], 0⟩] := by
    rw [series_of_accepted_eq_nil hnone, if_pos hidle.2.1]
  have hmem : ⟨[], 0⟩ ∈ f.metric.series := hseries ▸ List.mem_singleton_self _
  exact ⟨hnone, List.ne_nil_of_mem hmem, _, Metric.mem_samples_iff.mpr ⟨_, hmem, rfl⟩⟩

end Samples

section Dropping
variable {os os' : List Observation}

structure SameFamilies (os os' : List Observation) : Prop where
  leader : ∀ name, (leader? os name).map declarationOf = (leader? os' name).map declarationOf
  counted : ∀ p, (leader? os p.name).map declarationOf = some (declarationOf p) →
    counted os p = counted os' p

theorem SameFamilies.symm (h : SameFamilies os os') : SameFamilies os' os where
  leader name := (h.leader name).symm
  counted p hp := (h.counted p ((h.leader p.name).trans hp)).symm

theorem SameFamilies.exists_metric (h : SameFamilies os os') {f : Family} (hf : f ∈ group os) :
    ∃ g ∈ group os', g.declaration = f.declaration ∧ g.metric = f.metric := by
  have hfirst : leader? os f.name = some f.first := Family.find?_first hf
  have hleader := h.leader f.name
  rw [hfirst, Option.map_some] at hleader
  obtain ⟨first, hfirst', hdeclared⟩ := Option.map_eq_some_iff.mp hleader.symm
  obtain ⟨g, hg, hname, rfl⟩ := exists_family hfirst'
  have haccepted : g.accepted = f.accepted := by
    rw [← Family.counted_first hg, ← Family.counted_first hf, counted_congr hdeclared]
    refine (h.counted f.first ?_).symm
    rw [show f.first.name = f.name from rfl, hfirst, Option.map_some]
  exact ⟨g, hg, hdeclared, Family.metric_eq_of_accepted hdeclared haccepted⟩

theorem SameFamilies.metrics_subset (h : SameFamilies os os') {m : Metric}
    (hm : m ∈ (group os).map Family.metric) : m ∈ (group os').map Family.metric := by
  obtain ⟨f, hf, rfl⟩ := List.mem_map.mp hm
  obtain ⟨g, hg, _, hmetric⟩ := h.exists_metric hf
  rw [← hmetric]
  exact List.mem_map_of_mem hg

/-- Observations with the same families are registered alike and written as the same text. -/
theorem SameFamilies.text_eq (h : SameFamilies os os')
    (hnone : (Registry.empty.registerAll os).2 = none) :
    (Registry.empty.registerAll os').2 = none ∧
      (Registry.empty.registerAll os').1.text = (Registry.empty.registerAll os).1.text := by
  have hlegal := (registerAll_snd_eq_none_iff os).mp hnone
  have hlegal' : ∀ g ∈ group os', g.declaration.fault? = none := by
    intro g hg
    obtain ⟨f, hf, hdeclared, _⟩ := h.symm.exists_metric hg
    rw [← hdeclared]
    exact hlegal f hf
  refine ⟨(registerAll_snd_eq_none_iff os').mpr hlegal', ?_⟩
  rw [registerAll_fst hlegal, registerAll_fst hlegal']
  refine Registry.text_eq_of_pages (nodup_names_metrics os') (nodup_names_metrics os) fun page => ?_
  rw [Registry.mem_pages_iff, Registry.mem_pages_iff]
  exact ⟨fun ⟨m, hm, hpage⟩ => ⟨m, h.symm.metrics_subset hm, hpage⟩,
    fun ⟨m, hm, hpage⟩ => ⟨m, h.metrics_subset hm, hpage⟩⟩

theorem leader?_drop {before after : List Observation} {o : Observation} {name : String}
    (h : o.name ≠ name) : leader? (before ++ o :: after) name = leader? (before ++ after) name := by
  simp [leader?, List.find?_append, h]

/-- Without an observation that does not count the families are the same, if only that of its name is
declared the same. -/
theorem sameFamilies_drop {before after : List Observation} {o : Observation}
    (hcounts : ¬ Counts (before ++ o :: after) o)
    (hleader : (leader? (before ++ o :: after) o.name).map declarationOf =
      (leader? (before ++ after) o.name).map declarationOf) :
    SameFamilies (before ++ o :: after) (before ++ after) := by
  refine ⟨fun name => ?_, fun p hp => ?_⟩
  · by_cases hname : o.name = name
    · rw [← hname, hleader]
    · rw [leader?_drop hname]
  · obtain ⟨first, hfirst, hdeclared⟩ := Option.map_eq_some_iff.mp hp
    rw [← counted_congr hdeclared, ← counted_congr hdeclared]
    have hnot : o ∉ counted (before ++ o :: after) first := by
      intro hmem
      have hname : o.name = first.name := by
        have htest := (List.mem_filter.mp hmem).2
        exact of_decide_eq_true (Bool.and_eq_true_iff.mp htest).1
      have hsame : p.name = first.name := congrArg Declaration.name hdeclared.symm
      exact hcounts ⟨first, by rw [hname, ← hsame, hfirst], hmem⟩
    have hcons : counted (o :: after) first = counted after first :=
      List.filter_cons_of_neg fun htest =>
        hnot (List.mem_filter.mpr ⟨List.mem_append_cons_self, htest⟩)
    rw [counted_append, counted_append, hcons]

end Dropping

/-- Where label values are not confused, samples are genuine iff no counter without labels is left
without a value that counts.  What does not count never shows, unless its family is declared
otherwise without it. -/
theorem genuine_iff {os : List Observation} {r : Registry}
    (h : Registry.empty.registerAll os = (r, none)) (hdist : ∀ f ∈ group os, f.Distinguished) :
    (Genuine os r ↔ ∀ o ∈ leaders os, ¬ Idle os o) ∧
      ∀ before o after, os = before ++ o :: after → ¬ Counts os o →
        (leader? os o.name).map declarationOf =
          (leader? (before ++ after) o.name).map declarationOf →
        (Registry.empty.registerAll (before ++ after)).2 = none ∧
          (Registry.empty.registerAll (before ++ after)).1.text = r.text := by
  obtain ⟨_, hmetrics⟩ := (Service.registerAll_eq_none_iff os r).mp h
  refine ⟨⟨?_, ?_⟩, ?_⟩
  · intro hgenuine o ho hidle
    rw [← firsts_group] at ho
    obtain ⟨f, hf, rfl⟩ := List.mem_map.mp ho
    obtain ⟨hnone, hseries, s, hs⟩ := exists_sample_of_idle hf hidle
    have hgather : f.metric ∈ r.gather :=
      (Registry.mem_gather_iff r _).mpr ⟨hmetrics ▸ List.mem_map_of_mem hf, hseries⟩
    obtain ⟨o, _, hcounts, hrepeats⟩ := hgenuine _ hgather s hs
    have hmem := mem_accepted_of_counts hf (hrepeats.name.trans f.name_metric) hcounts
    rw [hnone] at hmem
    cases hmem
  · intro hidle m hm s hs
    obtain ⟨hmem, hseries⟩ := (Registry.mem_gather_iff r m).mp hm
    rw [hmetrics] at hmem
    obtain ⟨f, hf, rfl⟩ := List.mem_map.mp hmem
    have hsome := accepted_ne_nil_of_series hf (hidle _ (first_mem_leaders hf)) hseries
    exact exists_repeated hf (hdist f hf) hsome hs
  · rintro before o after rfl hcounts hleader
    have hsame := (sameFamilies_drop hcounts hleader).text_eq (by rw [h])
    rwa [h] at hsame

def resets (x : Float) : Observation := ⟨.counter, "resets_total", [], x, "Resets"⟩

def partlyDropped : List Observation :=
  [resets (-1), ⟨.gauge, "locks", [("datname", "a")], 2, "Locks held"⟩, resets 3,
    ⟨.counter, "reads_total", [("datname", "a")], 5, "Reads"⟩,
    ⟨.counter, "reads_total", [("datname", "b")], -5, "Reads"⟩]

theorem genuine_partlyDropped :
    ∃ r, Registry.empty.registerAll partlyDropped = (r, none) ∧
      (∀ f ∈ group partlyDropped, f.Distinguished) ∧ Genuine partlyDropped r ∧
      (Registry.empty.registerAll partlyDropped.tail).1.text = r.text := by
  have hregister : Registry.empty.registerAll partlyDropped =
      (⟨(group partlyDropped).map Family.metric⟩, none) :=
    (Service.registerAll_eq_none_iff _ _).mpr ⟨by decide +kernel, rfl⟩
  have hdist : ∀ f ∈ group partlyDropped, f.Distinguished := by
    unfold Family.Distinguished
    decide +kernel
  obtain ⟨hiff, hdrop⟩ := genuine_iff hregister hdist
  refine ⟨_, hregister, hdist, hiff.mpr ?_, (hdrop [] (resets (-1)) _ rfl ?_ rfl).2⟩
  · have hcounted : ∀ o ∈ leaders partlyDropped, (counted partlyDropped o).isEmpty = false := by
      decide +kernel
    intro o ho hidle
    have hsome := hcounted o ho
    rw [hidle.2.2] at hsome
    cases hsome
  · have hcounted : ∀ p ∈ counted partlyDropped (resets (-1)), (p.value == 3) = true := by
      decide +kernel
    rintro ⟨first, hfirst, hmem⟩
    cases hfirst
    exact absurd (hcounted _ hmem) (by decide +kernel)

def decrement : Observation := ⟨.counter, "c_total", [], -1, "help"⟩

/-- A counter without labels that is only given a negative value is written with the value zero. -/
theorem decrement_not_genuine :
    (Registry.empty.registerAll [decrement]).2 = none ∧
      (∀ f ∈ group [decrement], f.Distinguished) ∧
      ¬ Genuine [decrement] (Registry.empty.registerAll [decrement]).1 := by
  have hdist : ∀ f ∈ group [decrement], f.Distinguished := by
    unfold Family.Distinguished
    decide +kernel
  refine ⟨by decide +kernel, hdist, fun hgenuine => ?_⟩
  have hsample : ∃ m ∈ (Registry.empty.registerAll [decrement]).1.gather, 0 < m.samples.length := by
    decide +kernel
  obtain ⟨m, hm, hlength⟩ := hsample
  obtain ⟨s, hs⟩ := List.exists_mem_of_length_pos hlength
  obtain ⟨o, ho, ⟨first, hfirst, hcounted⟩, _⟩ := hgenuine m hm s hs
  cases List.mem_singleton.mp ho
  cases hfirst
  have hnone : (counted [decrement] decrement).length = 0 := by decide +kernel
  rw [List.length_eq_zero_iff.mp hnone] at hcounted
  cases hcounted

/-- The size of the relation `bc` of the schema `a` is written for the relation `c` of `ab`. -/
theorem merged_not_genuine :
    let os := [Family.relationSize "ab" "c" 1, Family.relationSize "a" "bc" 2]
    (Registry.empty.registerAll os).2 = none ∧ (∀ o ∈ leaders os, ¬ Idle os o) ∧
      ¬ Genuine os (Registry.empty.registerAll os).1 := by
  intro os
  have hgauges : ∀ o ∈ leaders os, o.kind = .gauge := by decide +kernel
  have hseries : ∃ m ∈ (Registry.empty.registerAll os).1.metrics, ∃ t ∈ m.series,
      m.declaration.labelNames.zip t.labelValues = (Family.relationSize "ab" "c" 1).labels ∧
        (t.value == 1) = false := by
    decide +kernel
  refine ⟨by decide +kernel, fun o ho hidle => ?_, fun hgenuine => ?_⟩
  · have hkind := hgauges o ho
    rw [hidle.1] at hkind
    cases hkind
  obtain ⟨m, hm, t, ht, hzip, hvalue⟩ := hseries
  have hgather : m ∈ (Registry.empty.registerAll os).1.gather :=
    (Registry.mem_gather_iff _ m).mpr ⟨hm, List.ne_nil_of_mem ht⟩
  have hsample := Metric.mem_samples_iff.mpr ⟨t, ht, rfl⟩
  obtain ⟨o, ho, _, hrepeats⟩ := hgenuine m hgather _ hsample
  have hlabels : sampleLabels (Family.relationSize "ab" "c" 1) = sampleLabels o := by
    rw [← hrepeats.labels, Series.sample, hzip, sampleLabels]
  rcases List.mem_cons.mp ho with rfl | ho
  · -- the labels are those of the first one, but the value is that of the other
    rcases hrepeats.value with heq | hbeq
    · rw [show t.value = 1 from heq] at hvalue
      exact absurd hvalue (by decide +kernel)
    · exact absurd (Eq.trans (Eq.symm hbeq) hvalue) (by decide)
  · cases List.mem_singleton.mp ho
    have heq := mergeSort_labels_inj (by decide +kernel) (by decide +kernel) hlabels
    exact absurd heq (by decide +kernel)

end PgMetrics.Exposition
