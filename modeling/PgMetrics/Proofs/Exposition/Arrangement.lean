import PgMetrics.Proofs.Exposition.Faithful
import PgMetrics.Proofs.Exposition.Refusal
import Mathlib.Data.List.Sort
import Mathlib.Order.Lex

/-! # The order of observations

Metrics are written in the order of their names and samples in that of their label values, so the
text does not show in which order the observations were made.  What the order can decide is which
observation leads its family, which of two values of one series is the later one, and which of two
combinations of label values with one identity comes first.  Where observations leave nothing of that
to decide, every arrangement of them is written as the same text.
-/
namespace PgMetrics.Exposition

section Sorting

theorem mergeSort_eq_of_perm {α : Type} {le : α → α → Bool} {l₁ l₂ : List α}
    (htrans : ∀ a b c, le a b = true → le b c = true → le a c = true)
    (htotal : ∀ a b, (le a b || le b a) = true)
    (hanti : ∀ a ∈ l₁, ∀ b ∈ l₁, le a b = true → le b a = true → a = b) (h : l₁.Perm l₂) :
    l₁.mergeSort le = l₂.mergeSort le := by
  have hperm : (l₁.mergeSort le).Perm (l₂.mergeSort le) :=
    ((List.mergeSort_perm l₁ le).trans h).trans (List.mergeSort_perm l₂ le).symm
  refine hperm.eq_of_pairwise ?_ (List.pairwise_mergeSort htrans htotal l₁)
    (List.pairwise_mergeSort htrans htotal l₂)
  intro a b ha hb
  exact hanti a (List.mem_mergeSort.mp ha) b (h.mem_iff.mpr (List.mem_mergeSort.mp hb))

theorem valuesLe_cons_iff {a b : String} {as bs : List String} :
    valuesLe (a :: as) (b :: bs) = true ↔ a < b ∨ a = b ∧ valuesLe as bs = true := by
  rw [valuesLe]
  simp only [Bool.or_eq_true, decide_eq_true_eq, Bool.and_eq_true, beq_iff_eq]

theorem valuesLe_trans {as bs cs : List String} (hab : valuesLe as bs = true)
    (hbc : valuesLe bs cs = true) : valuesLe as cs = true := by
  induction as generalizing bs cs with
  | nil => rfl
  | cons a as ih =>
    cases bs with
    | nil => cases hab
    | cons b bs =>
      cases cs with
      | nil => cases hbc
      | cons c cs =>
        rw [valuesLe_cons_iff] at hab hbc ⊢
        rcases hab with hab | ⟨rfl, hab⟩
        · rcases hbc with hbc | ⟨rfl, _⟩
          · exact Or.inl (lt_trans hab hbc)
          · exact Or.inl hab
        · exact hbc.imp_right fun ⟨heq, hbc⟩ => ⟨heq, ih hab hbc⟩

theorem valuesLe_total (as bs : List String) : (valuesLe as bs || valuesLe bs as) = true := by
  rw [Bool.or_eq_true]
  induction as generalizing bs with
  | nil => exact Or.inl rfl
  | cons a as ih =>
    cases bs with
    | nil => exact Or.inr rfl
    | cons b bs =>
      rw [valuesLe_cons_iff, valuesLe_cons_iff]
      rcases lt_trichotomy a b with hlt | rfl | hgt
      · exact Or.inl (Or.inl hlt)
      · exact (ih bs).imp (fun h => Or.inr ⟨rfl, h⟩) fun h => Or.inr ⟨rfl, h⟩
      · exact Or.inr (Or.inl hgt)

theorem valuesLe_antisymm {as bs : List String} (hab : valuesLe as bs = true)
    (hba : valuesLe bs as = true) : as = bs := by
  induction as generalizing bs with
  | nil =>
    cases bs with
    | nil => rfl
    | cons b bs => cases hba
  | cons a as ih =>
    cases bs with
    | nil => cases hab
    | cons b bs =>
      rw [valuesLe_cons_iff] at hab hba
      rcases hab with hab | ⟨rfl, hab⟩
      · rcases hba with hba | ⟨rfl, _⟩
        · exact absurd hba (lt_asymm hab)
        · exact absurd hab (lt_irrefl _)
      · rcases hba with hba | ⟨_, hba⟩
        · exact absurd hba (lt_irrefl _)
        · rw [ih hab hba]

end Sorting

section Samples
variable {names : List String}

/-- A sample shows the label values of its series, in another order. -/
theorem labelValues_of_sample {s t : Series} (hnames : names.Nodup)
    (hs : s.labelValues.length = names.length) (ht : t.labelValues.length = names.length)
    (h : (s.sample names).labels.map Prod.snd = (t.sample names).labels.map Prod.snd) :
    s.labelValues = t.labelValues := by
  have hfst : ∀ values : List String, values.length = names.length →
      (names.zip values).map Prod.fst = names :=
    fun values hlength => List.map_fst_zip hlength.ge
  have hkeys : ∀ u : Series, u.labelValues.length = names.length →
      (u.sample names).labels.map Prod.fst = names.mergeSort := by
    intro u hu
    have hmap := List.map_mergeSort (r := fun a b : String × String => decide (a.1 ≤ b.1))
      (s := fun a b => decide (a ≤ b)) (f := Prod.fst) (l := names.zip u.labelValues)
      fun _ _ _ _ => rfl
    rw [hfst _ hu] at hmap
    exact hmap
  have hlabels : (s.sample names).labels = (t.sample names).labels := by
    rw [← List.zip_unzip (s.sample names).labels, ← List.zip_unzip (t.sample names).labels,
      List.unzip_eq_map, List.unzip_eq_map, hkeys s hs, hkeys t ht, h]
  have hzip := mergeSort_labels_inj ((hfst _ hs).trans (hfst _ ht).symm)
    (by rw [hfst _ hs]; exact hnames) hlabels
  have hsnd := congrArg (List.map Prod.snd) hzip
  rwa [List.map_snd_zip hs.le, List.map_snd_zip ht.le] at hsnd

/-- Metrics that differ in the order of their series have the same samples. -/
theorem Metric.samples_eq_of_perm {m m' : Metric} (hdeclared : m.declaration = m'.declaration)
    (hnames : m.declaration.labelNames.Nodup)
    (hlength : ∀ s ∈ m.series, s.labelValues.length = m.declaration.labelNames.length)
    (hvalues : (m.series.map Series.labelValues).Nodup) (h : m.series.Perm m'.series) :
    m.samples = m'.samples := by
  unfold Metric.samples
  rw [← hdeclared]
  refine mergeSort_eq_of_perm (fun a b c => valuesLe_trans) (fun a b => valuesLe_total _ _) ?_
    (h.map _)
  intro a ha b hb hab hba
  obtain ⟨s, hs, rfl⟩ := List.mem_map.mp ha
  obtain ⟨t, ht, rfl⟩ := List.mem_map.mp hb
  have heq := labelValues_of_sample hnames (hlength s hs) (hlength t ht) (valuesLe_antisymm hab hba)
  rw [List.inj_on_of_nodup_map hvalues hs ht heq]

theorem Metric.text_congr {m m' : Metric} (hdeclared : m.declaration = m'.declaration)
    (hsamples : m.samples = m'.samples) : m.text = m'.text := by
  unfold Metric.text Metric.name
  rw [hdeclared, hsamples]

end Samples

namespace Registry

def pages (r : Registry) : List (String × String) :=
  (r.metrics.filter fun m => !m.series.isEmpty).map fun m => (m.name, m.text)

theorem mem_pages_iff {r : Registry} {page : String × String} :
    page ∈ r.pages ↔ ∃ m ∈ r.metrics, m.series ≠ [] ∧ (m.name, m.text) = page := by
  simp [pages, and_assoc]

theorem mem_pages_append {ms ms' : List Metric} {page : String × String} :
    page ∈ (⟨ms ++ ms'⟩ : Registry).pages ↔
      page ∈ (⟨ms⟩ : Registry).pages ∨ page ∈ (⟨ms'⟩ : Registry).pages := by
  simp only [pages, List.filter_append, List.map_append, List.mem_append]

theorem text_eq_join_pages (r : Registry) :
    r.text = String.join ((r.pages.mergeSort fun a b => a.1 ≤ b.1).map Prod.snd) := by
  rw [pages, ← List.map_mergeSort (r := fun a b => decide (a.name ≤ b.name)) fun _ _ _ _ => rfl,
    List.map_map]
  rfl

/-- Registries that write the same pages are the same text. -/
theorem text_eq_of_pages {r r' : Registry} (hr : (r.metrics.map Metric.name).Nodup)
    (hr' : (r'.metrics.map Metric.name).Nodup) (h : ∀ page, page ∈ r.pages ↔ page ∈ r'.pages) :
    r.text = r'.text := by
  have hnames : ∀ r : Registry, (r.metrics.map Metric.name).Nodup → (r.pages.map Prod.fst).Nodup := by
    intro r hr
    rw [pages, List.map_map]
    exact hr.sublist (List.filter_sublist.map Metric.name)
  have hperm : r.pages.Perm r'.pages :=
    (List.perm_ext_iff_of_nodup (hnames r hr).of_map (hnames r' hr').of_map).mpr h
  have hsort : (r.pages.mergeSort fun a b => a.1 ≤ b.1) = r'.pages.mergeSort fun a b => a.1 ≤ b.1 := by
    refine mergeSort_eq_of_perm ?_ ?_ ?_ hperm
    · intro a b c hab hbc
      exact decide_eq_true (le_trans (of_decide_eq_true hab) (of_decide_eq_true hbc))
    · intro a b
      rw [Bool.or_eq_true, decide_eq_true_iff, decide_eq_true_iff]
      exact le_total a.1 b.1
    · intro a ha b hb hab hba
      refine List.inj_on_of_nodup_map (hnames r hr) ha hb ?_
      exact le_antisymm (of_decide_eq_true hab) (of_decide_eq_true hba)
  rw [text_eq_join_pages, text_eq_join_pages, hsort]

end Registry

/-- Nothing is left to the order: the members of a family declare the same, no series is given a value
twice, and no two combinations of label values in a family have the same identity. -/
structure Orderly (os : List Observation) : Prop where
  agree : ∀ o ∈ os, ∀ p ∈ os, o.name = p.name → declarationOf o = declarationOf p
  once : (os.map fun o => (o.name, o.labelValues)).Nodup
  apart : ∀ o ∈ os, ∀ p ∈ os, o.name = p.name → o.labelValues ≠ p.labelValues →
    identity o.labelValues ≠ identity p.labelValues

theorem Orderly.perm {os os' : List Observation} (h : Orderly os) (hperm : os.Perm os') :
    Orderly os' where
  agree o ho p hp := h.agree o (hperm.mem_iff.mpr ho) p (hperm.mem_iff.mpr hp)
  once := (hperm.map _).nodup_iff.mp h.once
  apart o ho p hp := h.apart o (hperm.mem_iff.mpr ho) p (hperm.mem_iff.mpr hp)

theorem latest_eq_self {os : List Observation} (h : (os.map Observation.labelValues).Nodup) :
    latest os = os := by
  induction os with
  | nil => rfl
  | cons o rest ih =>
    rw [List.map_cons, List.nodup_cons] at h
    rw [latest, if_neg h.1, ih h.2]

namespace Family
variable {f g : Family}

theorem mem_members_iff {os : List Observation} (hf : f ∈ group os) {o : Observation} :
    o ∈ f.members ↔ o ∈ os ∧ o.name = f.name := by
  rw [members_of_mem_group hf, List.mem_filter, decide_eq_true_iff]

theorem first_mem {os : List Observation} (hf : f ∈ group os) : f.first ∈ os :=
  ((mem_members_iff hf).mp List.mem_cons_self).1

theorem exists_of_name {os : List Observation} {o : Observation} (ho : o ∈ os) :
    ∃ f ∈ group os, f.name = o.name :=
  List.mem_map.mp ((mem_names_group_iff os o.name).mpr (List.mem_map_of_mem ho))

/-- What is accepted depends on the declaration and on the members. -/
theorem accepted_eq_filter (f : Family) : f.accepted = f.members.filter fun o =>
    o.kind == f.declaration.kind && o.labelNames == f.declaration.labelNames &&
      admissible f.declaration.kind o.value := rfl

theorem metric_eq_of_accepted (hdeclared : f.declaration = g.declaration)
    (haccepted : f.accepted = g.accepted) : f.metric = g.metric := by
  rw [metric, metric, hdeclared, haccepted]

/-- Families that declare the same and accept the same in any order have the same series. -/
theorem series_perm_of_accepted (hdeclared : f.declaration = g.declaration)
    (haccepted : f.accepted.Perm g.accepted)
    (hf : f.Distinguished) (hg : g.Distinguished)
    (honce : (f.accepted.map Observation.labelValues).Nodup) :
    f.metric.series.Perm g.metric.series := by
  by_cases hsome : f.accepted = []
  · have hnone : g.accepted = [] := List.nil_perm.mp (hsome ▸ haccepted)
    rw [metric_eq_of_accepted hdeclared (hsome.trans hnone.symm)]
  · have hsome' : g.accepted ≠ [] := fun hnone => hsome (List.perm_nil.mp (hnone ▸ haccepted))
    have honce' : (g.accepted.map Observation.labelValues).Nodup :=
      (haccepted.map _).nodup_iff.mp honce
    have hdue : f.dueSeries = g.dueSeries := by
      have hkind : f.first.kind = g.first.kind := congrArg Declaration.kind hdeclared
      funext o
      rw [dueSeries, dueSeries, hkind]
    have hperm := series_perm hf hsome
    have hperm' := series_perm hg hsome'
    rw [latest_eq_self honce, hdue] at hperm
    rw [latest_eq_self honce'] at hperm'
    exact (hperm.trans (haccepted.map _)).trans hperm'.symm

theorem nodup_seriesValues (f : Family) : (f.metric.series.map Series.labelValues).Nodup := by
  have hidentities := f.holds_metric.nodup
  have hmap : f.metric.series.map (fun s => identity s.labelValues) =
      (f.metric.series.map Series.labelValues).map identity := by
    rw [List.map_map]
    rfl
  rw [hmap] at hidentities
  exact hidentities.of_map

end Family

section Arrangement
variable {os os' : List Observation}

theorem Orderly.distinguished {os : List Observation} (h : Orderly os) {f : Family}
    (hf : f ∈ group os) :
    f.Distinguished := by
  have hmem : ∀ o ∈ f.accepted, o ∈ os ∧ o.name = f.name :=
    fun o ho => (Family.mem_members_iff hf).mp (List.mem_filter.mp ho).1
  intro o₁ h₁ o₂ h₂ hne
  exact h.apart o₁ (hmem o₁ h₁).1 o₂ (hmem o₂ h₂).1 ((hmem o₁ h₁).2.trans (hmem o₂ h₂).2.symm) hne

theorem Orderly.nodup_labelValues {os : List Observation} (h : Orderly os) {f : Family}
    (hf : f ∈ group os) :
    (f.accepted.map Observation.labelValues).Nodup := by
  have hmembers : (f.members.map fun o => (o.name, o.labelValues)).Nodup := by
    rw [members_of_mem_group hf]
    exact h.once.sublist (List.filter_sublist.map _)
  have haccepted : (f.accepted.map fun o => (f.name, o.labelValues)).Nodup := by
    have hnames : (f.accepted.map fun o => (f.name, o.labelValues)) =
        f.accepted.map fun o => (o.name, o.labelValues) :=
      List.map_congr_left fun o ho => by
        rw [((Family.mem_members_iff hf).mp (List.mem_filter.mp ho).1).2]
    rw [hnames]
    exact hmembers.sublist (List.filter_sublist.map _)
  refine List.Nodup.of_map (Prod.mk f.name) ?_
  rwa [List.map_map]

theorem exists_family_of_perm (h : Orderly os) (hperm : os.Perm os') {f : Family}
    (hf : f ∈ group os) : ∃ g ∈ group os', f.declaration = g.declaration ∧
      f.accepted.Perm g.accepted := by
  obtain ⟨g, hg, hname⟩ := Family.exists_of_name (hperm.mem_iff.mp (Family.first_mem hf))
  have hdeclared : f.declaration = g.declaration :=
    h.agree _ (Family.first_mem hf) _ (hperm.mem_iff.mpr (Family.first_mem hg)) hname.symm
  refine ⟨g, hg, hdeclared, ?_⟩
  have hname : g.name = f.name := hname
  rw [f.accepted_eq_filter, g.accepted_eq_filter, hdeclared, members_of_mem_group hf,
    members_of_mem_group hg, hname]
  exact (hperm.filter _).filter _

theorem legal_of_perm (h : Orderly os) (hperm : os.Perm os')
    (hlegal : ∀ f ∈ group os, f.declaration.fault? = none) :
    ∀ g ∈ group os', g.declaration.fault? = none := by
  intro g hg
  obtain ⟨f, hf, hdeclared, _⟩ := exists_family_of_perm (h.perm hperm) hperm.symm hg
  rw [hdeclared]
  exact hlegal f hf

theorem mem_pages_of_perm (h : Orderly os) (hperm : os.Perm os')
    (hlegal : ∀ f ∈ group os, f.declaration.fault? = none) {page : String × String}
    (hpage : page ∈ (⟨(group os).map Family.metric⟩ : Registry).pages) :
    page ∈ (⟨(group os').map Family.metric⟩ : Registry).pages := by
  obtain ⟨m, hm, hseries, rfl⟩ := Registry.mem_pages_iff.mp hpage
  obtain ⟨f, hf, rfl⟩ := List.mem_map.mp hm
  obtain ⟨g, hg, hdeclared, haccepted⟩ := exists_family_of_perm h hperm hf
  have hperm := Family.series_perm_of_accepted hdeclared haccepted
    (h.distinguished hf)
    ((h.perm hperm).distinguished hg) (h.nodup_labelValues hf)
  have hmetrics : f.metric.declaration = g.metric.declaration := by
    rw [f.declaration_metric, g.declaration_metric, hdeclared]
  have hsamples : f.metric.samples = g.metric.samples := by
    refine Metric.samples_eq_of_perm hmetrics ?_ ?_ f.nodup_seriesValues hperm
    · rw [f.declaration_metric]
      exact Family.nodup_labelNames (hlegal f hf)
    · rw [f.declaration_metric]
      exact fun s hs => Family.length_labelValues hs
  refine Registry.mem_pages_iff.mpr ⟨g.metric, List.mem_map_of_mem hg, ?_, ?_⟩
  · intro hnil
    rw [hnil] at hperm
    exact hseries hperm.eq_nil
  · rw [← Metric.text_congr hmetrics hsamples, Metric.name, Metric.name, hmetrics]

end Arrangement

section Registered

theorem registerAll_snd_eq_none_iff (os : List Observation) :
    (Registry.empty.registerAll os).2 = none ↔ ∀ f ∈ group os, f.declaration.fault? = none := by
  constructor
  · intro h
    exact ((Service.registerAll_eq_none_iff os _).mp (Prod.ext rfl h)).1
  · intro h
    rw [(Service.registerAll_eq_none_iff os _).mpr ⟨h, rfl⟩]

theorem registerAll_fst {os : List Observation} (h : ∀ f ∈ group os, f.declaration.fault? = none) :
    (Registry.empty.registerAll os).1 = ⟨(group os).map Family.metric⟩ := by
  rw [(Service.registerAll_eq_none_iff os _).mpr ⟨h, rfl⟩]

end Registered

/-- What is served with the metrics of the process depends as little on the order. -/
theorem exposition_of_perm {σ κ : Type} {s : Service σ κ} {os os' : List Observation} {text : String}
    (h : Orderly os) (hperm : os.Perm os') (htext : s.exposition os = .ok text) :
    s.exposition os' = .ok text := by
  obtain ⟨hlegal, hnames, rfl⟩ := (s.exposition_eq_ok_iff os text).mp htext
  have hlegal' := legal_of_perm h hperm hlegal
  have hgroup : ((group os).map Family.name).Perm ((group os').map Family.name) := by
    rw [List.perm_ext_iff_of_nodup (nodup_names_group os) (nodup_names_group os')]
    intro name
    rw [mem_names_group_iff, mem_names_group_iff]
    exact (hperm.map _).mem_iff
  have hrendered : ((s.rendered os).map Metric.name).Perm ((s.rendered os').map Metric.name) := by
    rw [Service.rendered, Service.rendered, List.map_append, List.map_append, names_metrics,
      names_metrics]
    exact hgroup.append_right _
  have hnames' := hrendered.nodup_iff.mp hnames
  refine (s.exposition_eq_ok_iff os' _).mpr ⟨hlegal', hnames', ?_⟩
  refine Registry.text_eq_of_pages hnames hnames' fun page => ?_
  rw [Service.rendered, Service.rendered, Registry.mem_pages_append, Registry.mem_pages_append]
  exact or_congr_left ⟨mem_pages_of_perm h hperm hlegal,
    mem_pages_of_perm (h.perm hperm) hperm.symm hlegal'⟩

/-- Every arrangement of observations that leave nothing to their order can be registered or none
can, and all are written and served as the same text. -/
theorem text_registerAll_of_perm {os os' : List Observation} (h : Orderly os)
    (hperm : os.Perm os') :
    ((Registry.empty.registerAll os).2 = none ↔ (Registry.empty.registerAll os').2 = none) ∧
      ((Registry.empty.registerAll os).2 = none →
        (Registry.empty.registerAll os).1.text = (Registry.empty.registerAll os').1.text) ∧
      ∀ {σ κ : Type} (s : Service σ κ) (text : String),
        s.exposition os = .ok text ↔ s.exposition os' = .ok text := by
  have hlegal : (Registry.empty.registerAll os).2 = none ↔
      (Registry.empty.registerAll os').2 = none := by
    rw [registerAll_snd_eq_none_iff, registerAll_snd_eq_none_iff]
    exact ⟨legal_of_perm h hperm, legal_of_perm (h.perm hperm) hperm.symm⟩
  refine ⟨hlegal, fun hnone => ?_, fun s text =>
    ⟨exposition_of_perm h hperm, exposition_of_perm (h.perm hperm) hperm.symm⟩⟩
  have hfamilies := (registerAll_snd_eq_none_iff os).mp hnone
  have hfamilies' := (registerAll_snd_eq_none_iff os').mp (hlegal.mp hnone)
  rw [registerAll_fst hfamilies, registerAll_fst hfamilies']
  refine Registry.text_eq_of_pages (nodup_names_metrics os) (nodup_names_metrics os') fun page => ?_
  exact ⟨mem_pages_of_perm h hperm hfamilies,
    mem_pages_of_perm (h.perm hperm) hperm.symm hfamilies'⟩

def assorted : List Observation :=
  [⟨.gauge, "locks", [("datname", "b"), ("mode", "x")], 2, "Locks held"⟩,
    ⟨.counter, "commits_total", [], 7, "Commits"⟩,
    ⟨.gauge, "locks", [("datname", "a"), ("mode", "x")], 1, "Locks held"⟩,
    ⟨.counter, "reads_total", [("datname", "b")], -1, "Reads"⟩,
    ⟨.counter, "reads_total", [("datname", "a")], 5, "Reads"⟩]

theorem text_registerAll_of_perm_assorted :
    Orderly assorted ∧ assorted.Perm assorted.reverse ∧
      (Registry.empty.registerAll assorted).2 = none ∧
      (Registry.empty.registerAll assorted.reverse).2 = none ∧
      (Registry.empty.registerAll assorted).1.text =
        (Registry.empty.registerAll assorted.reverse).1.text := by
  have horderly : Orderly assorted := by
    refine ⟨by decide +kernel, by decide +kernel, by decide +kernel⟩
  have hperm : assorted.Perm assorted.reverse := (List.reverse_perm _).symm
  have hnone : (Registry.empty.registerAll assorted).2 = none := by decide +kernel
  obtain ⟨hiff, htext, _⟩ := text_registerAll_of_perm horderly hperm
  exact ⟨horderly, hperm, hnone, hiff.mp hnone, htext hnone⟩

end PgMetrics.Exposition
