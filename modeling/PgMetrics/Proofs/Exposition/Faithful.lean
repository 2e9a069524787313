import PgMetrics.Proofs.Exposition.Grouping
import PgMetrics.Proofs.Exposition.Roundtrip
import PgMetrics.Proofs.Exposition.Series

/-! # What is exposed is what was observed

The text of observations that could be registered reads as one entry for each metric, in the order
of the names: the help and the kind of its first observation, and one sample for every combination
of labels among the observations that agree with the first one, with the latest value.  A counter
without labels starts at zero, and a metric without any sample is left out.

A counter moves forward from zero, so its zeros are written without a sign.
-/
namespace PgMetrics.Exposition

def written (kind : Kind) (x : Float) : String :=
  match kind with
  | .gauge => Decimal.text x
  | .counter => if x == 0 then "0" else Decimal.text x

/-- The observations that count for the metric whose first observation is `first`. -/
def counted (os : List Observation) (first : Observation) : List Observation :=
  os.filter fun o => o.name = first.name && (o.kind == first.kind &&
    o.labelNames == first.labelNames && admissible first.kind o.value)

/-- The observations that no later one with the same label values replaces. -/
def latest : List Observation → List Observation
  | [] => []
  | o :: rest =>
    if o.labelValues ∈ rest.map Observation.labelValues then latest rest else o :: latest rest

/-- The samples that observations amount to for the metric whose first observation is `first`. -/
def dueReadings (write : Kind → Float → String) (os : List Observation) (first : Observation) :
    List Reading :=
  if (counted os first).isEmpty then
    if first.kind = .counter ∧ first.labelNames = [] then [⟨[], "0", none⟩] else []
  else (latest (counted os first)).map fun o => ⟨sampleLabels o, write first.kind o.value, none⟩

structure Entry.Tells (write : Kind → Float → String) (os : List Observation) (first : Observation)
    (e : Entry) : Prop where
  help : e.help = some first.help
  type : e.type = some first.kind.text
  readings : e.readings.Perm (dueReadings write os first)
  distinct : (e.readings.map Reading.labels).Nodup
  shown : e.readings ≠ []

/-- The entries say exactly what was observed, values being written by `write`. -/
structure Tells (write : Kind → Float → String) (os : List Observation) (es : List Entry) :
    Prop where
  sorted : (es.map Entry.name).Pairwise (· < ·)
  tells : ∀ e ∈ es, ∃ first, os.find? (fun o => o.name = e.name) = some first ∧
    e.Tells write os first
  complete : ∀ name first, os.find? (fun o => o.name = name) = some first →
    dueReadings write os first ≠ [] → name ∈ es.map Entry.name

theorem text_exposed {kind : Kind} (x : Float) :
    Decimal.text (exposed kind x) = written kind x := by
  cases kind with
  | gauge => rfl
  | counter =>
    have hzero : Decimal.text 0 = "0" := by decide +kernel
    unfold exposed written
    cases h : x == 0 with
    | true => rw [Decimal.zero_add_of_beq_zero h, hzero, if_pos rfl]
    | false =>
      have hne : ∀ s, x.toModel.unpack ≠ .zero s := by
        intro s hs
        rw [Decimal.beq_zero_iff.mpr ⟨s, hs⟩] at h
        cases h
      rw [Decimal.zero_add_eq hne, if_neg Bool.false_ne_true]

section Latest
variable {os : List Observation} {o : Observation}

theorem mem_of_mem_latest (h : o ∈ latest os) : o ∈ os := by
  induction os with
  | nil => exact h
  | cons p rest ih =>
    unfold latest at h
    split at h
    · exact List.mem_cons_of_mem _ (ih h)
    · rcases List.mem_cons.mp h with rfl | h
      · exact List.mem_cons_self
      · exact List.mem_cons_of_mem _ (ih h)

theorem nodup_labelValues_latest (os : List Observation) :
    ((latest os).map Observation.labelValues).Nodup := by
  induction os with
  | nil => exact List.nodup_nil
  | cons p rest ih =>
    unfold latest
    split
    · exact ih
    · rename_i hnew
      rw [List.map_cons, List.nodup_cons]
      refine ⟨?_, ih⟩
      intro hmem
      obtain ⟨q, hq, heq⟩ := List.mem_map.mp hmem
      exact hnew (heq ▸ List.mem_map_of_mem (mem_of_mem_latest hq))

theorem mem_latest_iff : o ∈ latest os ↔
    (os.filter fun p => p.labelValues = o.labelValues).getLast? = some o := by
  induction os with
  | nil => simp [latest]
  | cons p rest ih =>
    unfold latest
    by_cases heq : p.labelValues = o.labelValues
    · rw [List.filter_cons_of_pos (by simpa using heq)]
      by_cases hlater : p.labelValues ∈ rest.map Observation.labelValues
      · obtain ⟨q, hq, hqeq⟩ := List.mem_map.mp hlater
        have hne : (rest.filter fun p => p.labelValues = o.labelValues) ≠ [] :=
          List.ne_nil_of_mem (List.mem_filter.mpr ⟨hq, by simpa using hqeq.trans heq⟩)
        rw [if_pos hlater, ih, List.getLast?_cons_of_ne_nil hne]
      · have hnone : (rest.filter fun p => p.labelValues = o.labelValues) = [] := by
          rw [List.filter_eq_nil_iff]
          intro q hq hqeq
          exact hlater (List.mem_map.mpr ⟨q, hq, (of_decide_eq_true hqeq).trans heq.symm⟩)
        have hnot : o ∉ latest rest := by
          intro hmem
          exact hlater (heq ▸ List.mem_map_of_mem (mem_of_mem_latest hmem))
        rw [if_neg hlater, hnone, List.mem_cons, or_iff_left hnot, List.getLast?_singleton,
          Option.some.injEq, eq_comm]
    · -- then `p` has no part in the question
      rw [List.filter_cons_of_neg (by simpa using heq), ← ih]
      have hne : o ≠ p := fun h => heq (h ▸ rfl)
      split
      · rfl
      · rw [List.mem_cons, or_iff_right hne]

end Latest

/-- There is one sample for each series. -/
theorem Metric.readings_perm_series (m : Metric) : m.entry.readings.Perm
    (m.series.map fun t => (t.sample m.declaration.labelNames).reading) := by
  have hperm := (List.mergeSort_perm (m.series.map (Series.sample m.declaration.labelNames))
    fun a b => valuesLe (a.labels.map Prod.snd) (b.labels.map Prod.snd)).map Sample.reading
  rw [List.map_map] at hperm
  exact hperm

namespace Family
variable {f : Family}

def dueSeries (f : Family) (o : Observation) : Series :=
  ⟨o.labelValues, exposed f.first.kind o.value⟩

/-- In a family whose identities are distinct the latest accepted members are the series. -/
theorem series_perm (h : f.Distinguished) (hsome : f.accepted ≠ []) :
    f.metric.series.Perm ((latest f.accepted).map f.dueSeries) := by
  have hdue : ((latest f.accepted).map f.dueSeries).Nodup := by
    refine List.Nodup.of_map Series.labelValues ?_
    rw [List.map_map]
    exact nodup_labelValues_latest f.accepted
  have hseries : f.metric.series.Nodup := List.Nodup.of_map _ f.holds_metric.nodup
  rw [List.perm_ext_iff_of_nodup hseries hdue]
  intro t
  rw [List.mem_map]
  constructor
  · intro ht
    have horigin : ∃ o ∈ f.accepted, o.labelValues = t.labelValues := by
      rcases f.holds_metric.origin t ht with ⟨hnames, hempty⟩ | horigin
      · obtain ⟨o, ho⟩ := List.exists_mem_of_ne_nil _ hsome
        exact ⟨o, ho, (labelValues_eq_nil ho hnames).trans hempty.symm⟩
      · exact horigin
    obtain ⟨o, ho, hvalues⟩ := horigin
    obtain ⟨t', ht', hvalues', last, hlast, hvalue⟩ := exists_series h ho
    have heq : t' = t := by
      refine List.inj_on_of_nodup_map f.holds_metric.nodup ht' ht ?_
      rw [hvalues', hvalues]
    subst heq
    have hlabels := (mem_of_latest? hlast).2
    refine ⟨last, mem_latest_iff.mpr (hlabels ▸ hlast), ?_⟩
    rw [dueSeries, hlabels, ← hvalues', ← hvalue]
  · rintro ⟨o, ho, rfl⟩
    obtain ⟨t, ht, hvalues, last, hlast, hvalue⟩ := exists_series h (mem_of_mem_latest ho)
    have heq : last = o := Option.some.inj (hlast.symm.trans (mem_latest_iff.mp ho))
    rw [dueSeries, ← hvalues, ← heq, ← hvalue]
    exact ht

theorem reading_dueSeries {o : Observation} (ho : o ∈ f.accepted) :
    ((f.dueSeries o).sample f.declaration.labelNames).reading =
      ⟨sampleLabels o, written f.first.kind o.value, none⟩ := by
  rw [Sample.reading, Series.sample, dueSeries, zip_labelValues ho, text_exposed, sampleLabels]

theorem find?_first {os : List Observation} (hf : f ∈ group os) :
    os.find? (fun o => o.name = f.name) = some f.first := by
  rw [← List.head?_filter, ← members_of_mem_group hf]
  rfl

theorem counted_first {os : List Observation} (hf : f ∈ group os) :
    counted os f.first = f.accepted := by
  rw [accepted, members_of_mem_group hf, List.filter_filter, counted]
  refine List.filter_congr fun o _ => ?_
  rw [Bool.and_comm]
  rfl

theorem kind_eq_counter (h : f.accepted = []) : f.first.kind = .counter := by
  cases hkind : f.first.kind with
  | counter => rfl
  | gauge =>
    have hmem : f.first ∈ f.accepted := by
      rw [mem_accepted_iff]
      exact ⟨List.mem_cons_self, rfl, rfl, by rw [hkind]; rfl⟩
    rw [h] at hmem
    cases hmem

theorem readings_perm {os : List Observation} (hf : f ∈ group os) (h : f.Distinguished) :
    f.metric.entry.readings.Perm (dueReadings written os f.first) := by
  have hsamples := f.metric.readings_perm_series
  rw [f.declaration_metric] at hsamples
  refine hsamples.trans ?_
  rw [dueReadings, counted_first hf]
  cases hsome : f.accepted with
  | nil =>
    have hstart : f.metric.series = (Metric.new f.declaration).series := by
      rw [Family.metric, hsome, List.foldl_nil]
    have hzero : Decimal.text 0 = "0" := by decide +kernel
    rw [hstart, Metric.new]
    by_cases hnames : f.first.labelNames = []
    · have hnames' : f.declaration.labelNames = [] := hnames
      simp [hnames, hnames', kind_eq_counter hsome, Series.sample, Sample.reading, hzero]
    · have hnames' : f.declaration.labelNames ≠ [] := hnames
      simp [hnames, hnames']
  | cons o rest =>
    have hne : f.accepted ≠ [] := by simp [hsome]
    rw [← hsome]
    have hmap := (series_perm h hne).map fun t => (t.sample f.declaration.labelNames).reading
    rw [List.map_map] at hmap
    rw [if_neg (by simp [hsome])]
    refine hmap.trans (List.Perm.of_eq (List.map_congr_left fun o ho => ?_))
    exact reading_dueSeries (mem_of_mem_latest ho)

theorem nodup_labels_dueReadings {os : List Observation} (hf : f ∈ group os)
    (hlegal : f.declaration.fault? = none) (write : Kind → Float → String) :
    ((dueReadings write os f.first).map Reading.labels).Nodup := by
  rw [dueReadings, counted_first hf]
  split
  · split
    · exact List.nodup_singleton _
    · exact List.nodup_nil
  · rw [List.map_map]
    refine List.Nodup.map_on ?_ (List.Nodup.of_map _ (nodup_labelValues_latest f.accepted))
    intro o₁ h₁ o₂ h₂ (heq : sampleLabels o₁ = sampleLabels o₂)
    have hnames : ∀ o ∈ latest f.accepted, o.labels.map Prod.fst = f.first.labelNames :=
      fun o ho => ((f.mem_accepted_iff o).mp (mem_of_mem_latest ho)).2.2.1
    have hlabels : o₁.labels = o₂.labels := by
      refine mergeSort_labels_inj ((hnames o₁ h₁).trans (hnames o₂ h₂).symm) ?_ heq
      rw [hnames o₁ h₁]
      exact nodup_labelNames hlegal
    refine List.inj_on_of_nodup_map (nodup_labelValues_latest f.accepted) h₁ h₂ ?_
    rw [Observation.labelValues, hlabels, Observation.labelValues]

/-- A family with a series is read as what was observed of it. -/
theorem tells_entry {os : List Observation} (hf : f ∈ group os)
    (hlegal : f.declaration.fault? = none) (hdist : f.Distinguished)
    (hseries : f.metric.series ≠ []) : f.metric.entry.Tells written os f.first := by
  have hperm := f.readings_perm hf hdist
  have hdistinct := f.nodup_labels_dueReadings hf hlegal written
  refine ⟨?_, ?_, hperm, (hperm.map _).nodup_iff.mpr hdistinct, ?_⟩
  · rw [Metric.entry, f.declaration_metric]
    rfl
  · rw [Metric.entry, f.declaration_metric]
    rfl
  · exact (Metric.readings_ne_nil_iff _).mpr hseries

end Family

theorem fault?_metrics {fs : List Family} (h : ∀ f ∈ fs, f.declaration.fault? = none) :
    ∀ m ∈ fs.map Family.metric, m.declaration.fault? = none := by
  refine List.forall_mem_map.mpr fun f hf => ?_
  rw [f.declaration_metric]
  exact h f hf

theorem exists_family {os : List Observation} {name : String} {first : Observation}
    (h : os.find? (fun o => o.name = name) = some first) :
    ∃ f ∈ group os, f.name = name ∧ f.first = first := by
  have hfirst : first.name = name := by simpa using List.find?_some h
  have hname : name ∈ (group os).map Family.name := by
    rw [mem_names_group_iff, ← hfirst]
    exact List.mem_map_of_mem (List.mem_of_find?_eq_some h)
  obtain ⟨f, hf, rfl⟩ := List.mem_map.mp hname
  exact ⟨f, hf, rfl, Option.some.inj ((Family.find?_first hf).symm.trans h)⟩

/-- Metrics of distinct names are written in the order of the names. -/
theorem Registry.pairwise_gather {r : Registry} (h : (r.metrics.map Metric.name).Nodup) :
    (r.gather.map Metric.name).Pairwise (· < ·) := by
  have hsorted : (r.gather.map Metric.name).Pairwise (· ≤ ·) := by
    rw [List.pairwise_map]
    refine (List.pairwise_mergeSort ?_ ?_ _).imp fun hle => of_decide_eq_true hle
    · intro a b c hab hbc
      exact decide_eq_true (le_trans (of_decide_eq_true hab) (of_decide_eq_true hbc))
    · intro a b
      rw [Bool.or_eq_true, decide_eq_true_iff, decide_eq_true_iff]
      exact le_total a.name b.name
  exact (hsorted.and (nodup_names_gather h)).imp fun hboth => lt_of_le_of_ne hboth.1 hboth.2

/-- The text of observations that were registered reads as exactly what was observed, whatever their
helps and label values hold. -/
theorem tells_of_registerAll {os : List Observation} {r : Registry}
    (h : Registry.empty.registerAll os = (r, none)) (hdist : ∀ f ∈ group os, f.Distinguished) :
    ∃ es, readText r.text = some es ∧ Tells written os es := by
  obtain ⟨hlegal, rfl⟩ := (Service.registerAll_eq_none_iff os r).mp h
  have hnames : (((group os).map Family.metric).map Metric.name).Nodup := by
    rw [names_metrics]
    exact nodup_names_group os
  refine ⟨_, Registry.readText_text (fault?_metrics hlegal) hnames, ?_, ?_, ?_⟩
  · rw [List.map_map]
    exact Registry.pairwise_gather hnames
  · intro e he
    obtain ⟨m, hm, rfl⟩ := List.mem_map.mp he
    obtain ⟨hm, hseries⟩ := (Registry.mem_gather_iff _ m).mp hm
    obtain ⟨f, hf, rfl⟩ := List.mem_map.mp hm
    have hname : f.metric.entry.name = f.name := f.name_metric
    refine ⟨f.first, ?_, f.tells_entry hf (hlegal f hf) (hdist f hf) hseries⟩
    rw [hname]
    exact Family.find?_first hf
  · intro name first hfirst hdue
    obtain ⟨f, hf, rfl, rfl⟩ := exists_family hfirst
    have hreadings : f.metric.entry.readings ≠ [] := by
      intro hnil
      have hperm := f.readings_perm hf (hdist f hf)
      rw [hnil] at hperm
      exact hdue hperm.nil_eq.symm
    have hmem : f.metric ∈ Registry.gather ⟨(group os).map Family.metric⟩ :=
      (Registry.mem_gather_iff _ _).mpr
        ⟨List.mem_map_of_mem hf, (Metric.readings_ne_nil_iff _).mp hreadings⟩
    rw [List.map_map]
    exact List.mem_map.mpr ⟨f.metric, hmem, f.name_metric⟩

def adverse : List Observation :=
  [⟨.gauge, "m", [("b", "x\"\x7d 1\nm 2"), ("a", "\\")], 1.5, "line\n# TYPE m counter"⟩,
    ⟨.counter, "c_total", [], -1, "\\n"⟩,
    ⟨.gauge, "m", [("b", "x\"\x7d 1\nm 2"), ("a", "\\")], 2, "other"⟩,
    ⟨.gauge, "m", [("b", ""), ("a", "\n")], 3, "other"⟩,
    ⟨.counter, "m", [("b", "y"), ("a", "z")], 4, "other"⟩]

theorem tells_adverse : ∃ r, Registry.empty.registerAll adverse = (r, none) ∧
    (∀ f ∈ group adverse, f.Distinguished) ∧
    ∃ es, readText r.text = some es ∧ Tells written adverse es := by
  have hregister : Registry.empty.registerAll adverse =
      (⟨(group adverse).map Family.metric⟩, none) :=
    (Service.registerAll_eq_none_iff _ _).mpr ⟨by decide +kernel, rfl⟩
  have hdist : ∀ f ∈ group adverse, f.Distinguished := by
    unfold Family.Distinguished
    decide +kernel
  exact ⟨_, hregister, hdist, tells_of_registerAll hregister hdist⟩

/-- A counter at the negative zero is written as zero, so it does not read as it would be
written by itself. -/
theorem not_tells_negative_zero :
    ¬ ∀ os r, Registry.empty.registerAll os = (r, none) → (∀ f ∈ group os, f.Distinguished) →
      ∃ es, readText r.text = some es ∧ Tells (fun _ => Decimal.text) os es := by
  intro h
  let o : Observation := ⟨.counter, "c_total", [], -0.0, "help"⟩
  have hlegal : ∀ f ∈ group [o], f.declaration.fault? = none := by decide +kernel
  have hdist : ∀ f ∈ group [o], f.Distinguished := by
    unfold Family.Distinguished
    decide +kernel
  obtain ⟨es, hread, htells⟩ := h [o] ⟨(group [o]).map Family.metric⟩
    ((Service.registerAll_eq_none_iff _ _).mpr ⟨hlegal, rfl⟩) hdist
  have hentries : es = [⟨"c_total", some "help", some "counter", [⟨[], "0", none⟩]⟩] := by
    have htext := Registry.readText_text (r := ⟨(group [o]).map Family.metric⟩)
      (by decide +kernel) (by decide +kernel)
    rw [Option.some.inj (hread.symm.trans htext)]
    decide +kernel
  obtain ⟨first, hfirst, htold⟩ := htells.tells _ (hentries ▸ List.mem_singleton_self _)
  have hdue : dueReadings (fun _ => Decimal.text) [o] o = [⟨[], "-0", none⟩] := by decide +kernel
  cases hfirst
  have hreadings := htold.readings
  rw [hdue, List.perm_singleton] at hreadings
  exact absurd hreadings (by decide)

end PgMetrics.Exposition

namespace PgMetrics

open Exposition

theorem ProcessReadings.fault?_metrics (r : ProcessReadings) :
    ∀ m ∈ r.metrics, m.declaration.fault? = none := by
  have hdeclared : ∀ d ∈ ({} : ProcessReadings).metrics.map Metric.declaration,
      d.fault? = none := by
    decide +kernel
  have hsame : r.metrics.map Metric.declaration =
      ({} : ProcessReadings).metrics.map Metric.declaration := rfl
  rw [← hsame] at hdeclared
  exact List.forall_mem_map.mp hdeclared

/-- Whatever a service serves can be read, with the metrics of its process. -/
theorem Service.readText_exposition {σ κ : Type} {s : Service σ κ} {os : List Observation}
    {text : String} (h : s.exposition os = .ok text) :
    readText text = some ((Registry.gather ⟨s.rendered os⟩).map Metric.entry) := by
  obtain ⟨hlegal, hnames, rfl⟩ := (s.exposition_eq_ok_iff os text).mp h
  refine Registry.readText_text ?_ hnames
  refine List.forall_mem_append.mpr ⟨fault?_metrics hlegal, ?_⟩
  cases s.process with
  | none => exact fun m hm => absurd hm List.not_mem_nil
  | some r => exact r.fault?_metrics

end PgMetrics
