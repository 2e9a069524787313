import PgMetrics.Proofs.Decimal.ZeroSum
import PgMetrics.Proofs.Exposition.Registering
import Mathlib.Data.List.Induction
import Mathlib.Data.List.Nodup

/-! # Series kept apart

The accepted members of a family set the series of its metric one after the other.  There is one
series for each identity of label values: it keeps the label values that came first and the value
that came last.  So the members of a family are exposed faithfully exactly if no two combinations of
label values in it have the same identity.
-/
namespace PgMetrics.Exposition

/-- What a series holds once it has been given a value. -/
def exposed (kind : Kind) (x : Float) : Float :=
  match kind with
  | .gauge => x
  | .counter => 0 + x

theorem Metric.series_set (m : Metric) (values : List String) (x : Float) :
    (m.set values x).series = setSeries values (exposed m.declaration.kind x) m.series := rfl

def SameValue (x y : Float) : Prop := x = y ∨ (x == y) = true

theorem sameValue_exposed {kind : Kind} {x : Float} (h : admissible kind x = true) :
    SameValue (exposed kind x) x := by
  cases kind with
  | gauge => exact Or.inl rfl
  | counter =>
    have hfinite := (Bool.and_eq_true_iff.mp h).1
    exact Or.inr (Decimal.zero_add_beq hfinite)

section SetSeries
variable (values : List String) (x : Float)

theorem identities_setSeries (ss : List Series) :
    (setSeries values x ss).map (fun s => identity s.labelValues) =
      if identity values ∈ ss.map (fun s => identity s.labelValues) then
        ss.map fun s => identity s.labelValues
      else (ss.map fun s => identity s.labelValues) ++ [identity values] := by
  induction ss with
  | nil => rfl
  | cons s rest ih =>
    by_cases h : identity s.labelValues = identity values
    · simp [setSeries, h]
    · simp only [setSeries, h, if_false, List.map_cons, ih, List.mem_cons, Ne.symm h, false_or]
      split <;> simp

theorem nodup_identities_setSeries {ss : List Series}
    (h : (ss.map fun s => identity s.labelValues).Nodup) :
    ((setSeries values x ss).map fun s => identity s.labelValues).Nodup := by
  rw [identities_setSeries]
  split
  · exact h
  · rename_i hnew
    rw [List.nodup_append]
    refine ⟨h, List.nodup_singleton _, ?_⟩
    intro i hi j hj heq
    rw [List.mem_singleton] at hj
    subst hj heq
    exact hnew hi

theorem labelValues_of_mem_setSeries {ss : List Series} {s : Series}
    (h : s ∈ setSeries values x ss) :
    s.labelValues = values ∨ ∃ s' ∈ ss, s'.labelValues = s.labelValues := by
  induction ss with
  | nil =>
    rw [setSeries, List.mem_singleton] at h
    rw [h]
    exact Or.inl rfl
  | cons t rest ih =>
    unfold setSeries at h
    split at h
    · rcases List.mem_cons.mp h with rfl | h
      · exact Or.inr ⟨t, List.mem_cons_self, rfl⟩
      · exact Or.inr ⟨s, List.mem_cons_of_mem _ h, rfl⟩
    · rcases List.mem_cons.mp h with rfl | h
      · exact Or.inr ⟨s, List.mem_cons_self, rfl⟩
      · rcases ih h with h | ⟨s', hs', h⟩
        · exact Or.inl h
        · exact Or.inr ⟨s', List.mem_cons_of_mem _ hs', h⟩

theorem exists_mem_setSeries (ss : List Series) :
    ∃ s ∈ setSeries values x ss, identity s.labelValues = identity values ∧ s.value = x := by
  induction ss with
  | nil => exact ⟨⟨values, x⟩, List.mem_singleton_self _, rfl, rfl⟩
  | cons t rest ih =>
    unfold setSeries
    split
    · rename_i h
      exact ⟨_, List.mem_cons_self, h, rfl⟩
    · obtain ⟨s, hs, h⟩ := ih
      exact ⟨s, List.mem_cons_of_mem _ hs, h⟩

theorem mem_setSeries_of_ne {ss : List Series} {s : Series} (hs : s ∈ ss)
    (h : identity s.labelValues ≠ identity values) : s ∈ setSeries values x ss := by
  induction ss with
  | nil => exact absurd hs List.not_mem_nil
  | cons t rest ih =>
    unfold setSeries
    rcases List.mem_cons.mp hs with rfl | hs
    · rw [if_neg h]
      exact List.mem_cons_self
    · split
      · exact List.mem_cons_of_mem _ hs
      · exact List.mem_cons_of_mem _ (ih hs)

end SetSeries

def latestOf? (os : List Observation) (id : UInt64) : Option Observation :=
  (os.filter fun o => identity o.labelValues = id).getLast?

/-- What the series of a metric are once observations have been set: there is one for each identity,
with label values that occurred and the latest value. -/
structure Holds (kind : Kind) (labelNames : List String) (os : List Observation)
    (ss : List Series) : Prop where
  nodup : (ss.map fun s => identity s.labelValues).Nodup
  origin : ∀ s ∈ ss, labelNames = [] ∧ s.labelValues = [] ∨ ∃ o ∈ os, o.labelValues = s.labelValues
  latest : ∀ o ∈ os, ∃ s ∈ ss, identity s.labelValues = identity o.labelValues ∧
    ∃ last, latestOf? os (identity o.labelValues) = some last ∧ s.value = exposed kind last.value

theorem Holds.start (d : Declaration) : Holds d.kind d.labelNames [] (Metric.new d).series := by
  unfold Metric.new
  by_cases h : d.labelNames = []
  · simp only [h, if_true]
    refine ⟨List.nodup_singleton _, ?_, fun o ho => absurd ho List.not_mem_nil⟩
    intro s hs
    rw [List.mem_singleton] at hs
    rw [hs]
    exact Or.inl ⟨rfl, rfl⟩
  · simp only [h, if_false]
    exact ⟨List.nodup_nil, fun s hs => absurd hs List.not_mem_nil,
      fun o ho => absurd ho List.not_mem_nil⟩

theorem latestOf?_concat_self (os : List Observation) (o : Observation) :
    latestOf? (os ++ [o]) (identity o.labelValues) = some o := by
  simp [latestOf?]

theorem latestOf?_concat_of_ne (os : List Observation) {o : Observation} {id : UInt64}
    (h : identity o.labelValues ≠ id) : latestOf? (os ++ [o]) id = latestOf? os id := by
  simp [latestOf?, h]

/-- One more observation sets the series of its identity. -/
theorem Holds.set {kind : Kind} {labelNames : List String} {os : List Observation}
    {ss : List Series} (h : Holds kind labelNames os ss) (o : Observation) :
    Holds kind labelNames (os ++ [o]) (setSeries o.labelValues (exposed kind o.value) ss) := by
  refine ⟨nodup_identities_setSeries _ _ h.nodup, ?_, ?_⟩
  · intro s hs
    rcases labelValues_of_mem_setSeries _ _ hs with heq | ⟨s', hs', heq⟩
    · exact Or.inr ⟨o, List.mem_concat_self, heq.symm⟩
    · rw [← heq]
      rcases h.origin s' hs' with hempty | ⟨o', ho', heq'⟩
      · exact Or.inl hempty
      · exact Or.inr ⟨o', List.mem_append_left _ ho', heq'⟩
  · intro o' ho'
    by_cases hid : identity o.labelValues = identity o'.labelValues
    · obtain ⟨s, hs, hsid, hsval⟩ := exists_mem_setSeries o.labelValues (exposed kind o.value) ss
      refine ⟨s, hs, hsid.trans hid, o, ?_, hsval⟩
      rw [← hid]
      exact latestOf?_concat_self os o
    · have hmem : o' ∈ os := by
        rcases List.mem_append.mp ho' with hmem | hmem
        · exact hmem
        · rw [List.mem_singleton] at hmem
          rw [hmem] at hid
          exact absurd rfl hid
      obtain ⟨s, hs, hsid, last, hlast, hsval⟩ := h.latest o' hmem
      refine ⟨s, mem_setSeries_of_ne _ _ hs ?_, hsid, last, ?_, hsval⟩
      · rw [hsid]
        exact Ne.symm hid
      · rw [latestOf?_concat_of_ne os hid]
        exact hlast

def sampleLabels (o : Observation) : List (String × String) :=
  o.labels.mergeSort fun a b => a.1 ≤ b.1

theorem eq_of_perm_of_keys {l₁ l₂ : List (String × String)} (h : l₁.Perm l₂)
    (hkeys : l₁.map Prod.fst = l₂.map Prod.fst) (hnodup : (l₁.map Prod.fst).Nodup) : l₁ = l₂ := by
  induction l₁ generalizing l₂ with
  | nil => exact h.nil_eq
  | cons a rest ih =>
    cases l₂ with
    | nil => cases hkeys
    | cons b rest' =>
      rw [List.map_cons, List.map_cons, List.cons.injEq] at hkeys
      obtain ⟨hkey, hkeys⟩ := hkeys
      rw [List.map_cons, List.nodup_cons] at hnodup
      have hab : a = b := by
        rcases List.mem_cons.mp (h.mem_iff.mp List.mem_cons_self) with hab | hmem
        · exact hab
        · have hfst := List.mem_map_of_mem hmem (f := Prod.fst)
          rw [← hkeys] at hfst
          exact absurd hfst hnodup.1
      subst hab
      rw [ih h.cons_inv hkeys hnodup.2]

/-- Under distinct names, sorting labels by name loses nothing. -/
theorem mergeSort_labels_inj {l₁ l₂ : List (String × String)}
    (hkeys : l₁.map Prod.fst = l₂.map Prod.fst) (hnodup : (l₁.map Prod.fst).Nodup)
    (h : (l₁.mergeSort fun a b => a.1 ≤ b.1) = l₂.mergeSort fun a b => a.1 ≤ b.1) : l₁ = l₂ := by
  have hperm : l₁.Perm l₂ := by
    have h₁ := List.mergeSort_perm l₁ fun a b => a.1 ≤ b.1
    rw [h] at h₁
    exact h₁.symm.trans (List.mergeSort_perm l₂ fun a b => a.1 ≤ b.1)
  exact eq_of_perm_of_keys hperm hkeys hnodup

namespace Family

theorem holds_metric (f : Family) :
    Holds f.first.kind f.first.labelNames f.accepted f.metric.series := by
  unfold Family.metric
  induction f.accepted using List.reverseRecOn with
  | nil => exact Holds.start f.declaration
  | append_singleton os o ih =>
    rw [List.foldl_append, List.foldl_cons, List.foldl_nil, Metric.series_set,
      declaration_foldl_set]
    exact ih.set o

theorem mem_accepted_iff (f : Family) (o : Observation) : o ∈ f.accepted ↔
    o ∈ f.members ∧ o.kind = f.first.kind ∧ o.labelNames = f.first.labelNames ∧
      admissible f.first.kind o.value = true := by
  simp [accepted, agrees, and_assoc]

theorem zip_labelValues {f : Family} {o : Observation} (h : o ∈ f.accepted) :
    f.declaration.labelNames.zip o.labelValues = o.labels := by
  obtain ⟨_, _, hnames, _⟩ := (f.mem_accepted_iff o).mp h
  change f.first.labelNames.zip o.labelValues = o.labels
  rw [← hnames, Observation.labelNames, Observation.labelValues]
  have hunzip := List.zip_unzip o.labels
  rwa [List.unzip_eq_map] at hunzip

def latest? (f : Family) (values : List String) : Option Observation :=
  (f.accepted.filter fun o => o.labelValues = values).getLast?

/-- A sample has the labels of an observation and the value of its latest repetition. -/
structure Shows (f : Family) (o : Observation) (s : Sample) : Prop where
  labels : s.labels = sampleLabels o
  value : ∃ last, f.latest? o.labelValues = some last ∧ SameValue s.value last.value

/-- No two combinations of label values among the accepted members have the same identity. -/
def Distinguished (f : Family) : Prop :=
  ∀ o₁ ∈ f.accepted, ∀ o₂ ∈ f.accepted, o₁.labelValues ≠ o₂.labelValues →
    identity o₁.labelValues ≠ identity o₂.labelValues

theorem Distinguished.eq_of_identity {f : Family} (h : f.Distinguished) {o₁ o₂ : Observation}
    (h₁ : o₁ ∈ f.accepted) (h₂ : o₂ ∈ f.accepted)
    (hid : identity o₁.labelValues = identity o₂.labelValues) :
    o₁.labelValues = o₂.labelValues := by
  by_contra hne
  exact h o₁ h₁ o₂ h₂ hne hid

/-- Without labels there is only one combination. -/
theorem labelValues_eq_nil {f : Family} {o : Observation} (h : o ∈ f.accepted)
    (hnames : f.first.labelNames = []) : o.labelValues = [] := by
  obtain ⟨_, _, heq, _⟩ := (f.mem_accepted_iff o).mp h
  rw [hnames, Observation.labelNames, List.map_eq_nil_iff] at heq
  rw [Observation.labelValues, heq, List.map_nil]

/-- In a family whose identities are distinct every accepted member has a series of its own, with
the latest value. -/
theorem exists_series {f : Family} (h : f.Distinguished) {o : Observation} (ho : o ∈ f.accepted) :
    ∃ t ∈ f.metric.series, t.labelValues = o.labelValues ∧
      ∃ last, f.latest? o.labelValues = some last ∧ t.value = exposed f.first.kind last.value := by
  obtain ⟨t, ht, hid, last, hlast, hvalue⟩ := f.holds_metric.latest o ho
  have hvalues : t.labelValues = o.labelValues := by
    rcases f.holds_metric.origin t ht with ⟨hnames, hempty⟩ | ⟨o', ho', heq⟩
    · rw [hempty, labelValues_eq_nil ho hnames]
    · rw [← heq] at hid ⊢
      exact h.eq_of_identity ho' ho hid
  refine ⟨t, ht, hvalues, last, ?_, hvalue⟩
  rw [← hlast, latest?, latestOf?]
  congr 1
  apply List.filter_congr
  intro o' ho'
  rw [decide_eq_decide]
  constructor
  · intro heq
    rw [heq]
  · exact h.eq_of_identity ho' ho

theorem mem_of_latest? {f : Family} {values : List String} {o : Observation}
    (h : f.latest? values = some o) : o ∈ f.accepted ∧ o.labelValues = values := by
  have hmem := List.mem_filter.mp (List.mem_of_getLast? h)
  exact ⟨hmem.1, of_decide_eq_true hmem.2⟩

theorem exists_shows {f : Family} (h : f.Distinguished) {o : Observation} (ho : o ∈ f.accepted) :
    ∃ s ∈ f.metric.samples, f.Shows o s := by
  obtain ⟨t, ht, hvalues, last, hlatest, hvalue⟩ := exists_series h ho
  have hadmissible : admissible f.first.kind last.value = true :=
    ((f.mem_accepted_iff last).mp (mem_of_latest? hlatest).1).2.2.2
  refine ⟨_, Metric.mem_samples_iff.mpr ⟨t, ht, rfl⟩, ?_, last, hlatest, ?_⟩
  · rw [Series.sample, f.declaration_metric, hvalues, zip_labelValues ho, sampleLabels]
  · rw [Series.sample, hvalue]
    exact sameValue_exposed hadmissible

theorem length_labelValues {f : Family} {t : Series} (ht : t ∈ f.metric.series) :
    t.labelValues.length = f.first.labelNames.length := by
  rcases f.holds_metric.origin t ht with ⟨hnames, hempty⟩ | ⟨o, ho, heq⟩
  · rw [hnames, hempty]
  · obtain ⟨_, _, hnames, _⟩ := (f.mem_accepted_iff o).mp ho
    rw [← heq, ← hnames, Observation.labelValues, Observation.labelNames, List.length_map,
      List.length_map]

theorem nodup_labelNames {f : Family} (h : f.declaration.fault? = none) :
    f.first.labelNames.Nodup :=
  (Declaration.fault?_eq_none_iff.mp h).2.2.2

/-- A sample with the labels of an accepted member belongs to a series with its label values. -/
theorem exists_series_of_labels {f : Family} (h : f.declaration.fault? = none) {o : Observation}
    (ho : o ∈ f.accepted) {s : Sample} (hs : s ∈ f.metric.samples)
    (hlabels : s.labels = sampleLabels o) :
    ∃ t ∈ f.metric.series, t.labelValues = o.labelValues := by
  obtain ⟨t, ht, rfl⟩ := Metric.mem_samples_iff.mp hs
  rw [Series.sample, f.declaration_metric, sampleLabels] at hlabels
  have hlength := length_labelValues ht
  have hkeys : (f.declaration.labelNames.zip t.labelValues).map Prod.fst = f.first.labelNames :=
    List.map_fst_zip hlength.ge
  have hnames : o.labels.map Prod.fst = f.first.labelNames :=
    ((f.mem_accepted_iff o).mp ho).2.2.1
  have hzip : f.declaration.labelNames.zip t.labelValues = o.labels := by
    apply mergeSort_labels_inj _ _ hlabels
    · rw [hkeys, hnames]
    · rw [hkeys]
      exact nodup_labelNames h
  refine ⟨t, ht, ?_⟩
  rw [Observation.labelValues, ← hzip]
  exact (List.map_snd_zip hlength.le).symm

/-- Label values that both have a sample of their own differ in identity. -/
theorem identity_ne_of_samples {f : Family} (h : f.declaration.fault? = none)
    {o₁ o₂ : Observation} (h₁ : o₁ ∈ f.accepted) (h₂ : o₂ ∈ f.accepted)
    (hne : o₁.labelValues ≠ o₂.labelValues) {s₁ s₂ : Sample} (hs₁ : s₁ ∈ f.metric.samples)
    (hs₂ : s₂ ∈ f.metric.samples) (hl₁ : s₁.labels = sampleLabels o₁)
    (hl₂ : s₂.labels = sampleLabels o₂) :
    identity o₁.labelValues ≠ identity o₂.labelValues := by
  obtain ⟨t₁, ht₁, hv₁⟩ := exists_series_of_labels h h₁ hs₁ hl₁
  obtain ⟨t₂, ht₂, hv₂⟩ := exists_series_of_labels h h₂ hs₂ hl₂
  intro hid
  rw [← hv₁, ← hv₂] at hid hne
  have heq : t₁ = t₂ := List.inj_on_of_nodup_map f.holds_metric.nodup ht₁ ht₂ hid
  exact hne (congrArg Series.labelValues heq)

/-- Label values that differ have samples with different labels. -/
theorem sampleLabels_ne {f : Family} (h : f.declaration.fault? = none) {o₁ o₂ : Observation}
    (h₁ : o₁ ∈ f.accepted) (h₂ : o₂ ∈ f.accepted) (hne : o₁.labelValues ≠ o₂.labelValues) :
    sampleLabels o₁ ≠ sampleLabels o₂ := by
  intro heq
  have hnames₁ : o₁.labels.map Prod.fst = f.first.labelNames :=
    ((f.mem_accepted_iff o₁).mp h₁).2.2.1
  have hnames₂ : o₂.labels.map Prod.fst = f.first.labelNames :=
    ((f.mem_accepted_iff o₂).mp h₂).2.2.1
  have hlabels : o₁.labels = o₂.labels := by
    apply mergeSort_labels_inj _ _ heq
    · rw [hnames₁, hnames₂]
    · rw [hnames₁]
      exact nodup_labelNames h
  exact hne (congrArg (List.map Prod.snd) hlabels)

/-- Two accepted members have two samples in the metric of their family, each with its own labels
and the value of its latest repetition. -/
def Separates (f : Family) (r : Registry) (o₁ o₂ : Observation) : Prop :=
  ∃ m ∈ r.gather, m.declaration = f.declaration ∧ ∃ s₁ ∈ m.samples, ∃ s₂ ∈ m.samples,
    f.Shows o₁ s₁ ∧ f.Shows o₂ s₂ ∧ s₁.labels ≠ s₂.labels

/-- Once the observations are registered, two members of a family are separated whenever their
label values differ, exactly if different label values have different identities. -/
theorem separates_iff_distinguished {r r' : Registry} {os : List Observation}
    (h : r.registerAll os = (r', none)) {f : Family} (hf : f ∈ group os) :
    (∀ o₁ ∈ f.accepted, ∀ o₂ ∈ f.accepted, o₁.labelValues ≠ o₂.labelValues →
      f.Separates r' o₁ o₂) ↔ f.Distinguished := by
  obtain ⟨hfault, hmem, hunique⟩ := (Registry.registerFamilies_spec h).2 f hf
  constructor
  · intro hsep o₁ h₁ o₂ h₂ hne
    obtain ⟨m, hm, hdecl, s₁, hs₁, s₂, hs₂, hshow₁, hshow₂, _⟩ := hsep o₁ h₁ o₂ h₂ hne
    have hmetric : m = f.metric :=
      hunique m ((r'.mem_gather_iff m).mp hm).1 (congrArg Declaration.name hdecl)
    rw [hmetric] at hs₁ hs₂
    exact identity_ne_of_samples hfault h₁ h₂ hne hs₁ hs₂ hshow₁.labels hshow₂.labels
  · intro hdist o₁ h₁ o₂ h₂ hne
    obtain ⟨s₁, hs₁, hshow₁⟩ := exists_shows hdist h₁
    obtain ⟨s₂, hs₂, hshow₂⟩ := exists_shows hdist h₂
    have hseries : f.metric.series ≠ [] := by
      intro hempty
      rw [Metric.samples, hempty, List.map_nil, List.mergeSort_nil] at hs₁
      exact absurd hs₁ List.not_mem_nil
    refine ⟨f.metric, (r'.mem_gather_iff _).mpr ⟨hmem, hseries⟩, f.declaration_metric, s₁, hs₁,
      s₂, hs₂, hshow₁, hshow₂, ?_⟩
    rw [hshow₁.labels, hshow₂.labels]
    exact sampleLabels_ne hfault h₁ h₂ hne

def relationSize (schema relation : String) (bytes : Float) : Observation where
  kind := .gauge
  name := "postgres_disk_usage_relation_bytes"
  labels := [("datname", "app"), ("schemaname", schema), ("relname", relation)]
  value := bytes
  help := "Bytes used on disk to store this relation"

def oneSchema : Family where
  first := relationSize "shop" "orders" 1
  rest := [relationSize "shop" "users" 2, relationSize "shop" "orders" 3]

theorem separates_iff_distinguished_oneSchema :
    Registry.empty.registerAll oneSchema.members = (⟨[oneSchema.metric]⟩, none) ∧
      oneSchema ∈ group oneSchema.members ∧
      ((∀ o₁ ∈ oneSchema.accepted, ∀ o₂ ∈ oneSchema.accepted,
        o₁.labelValues ≠ o₂.labelValues → oneSchema.Separates ⟨[oneSchema.metric]⟩ o₁ o₂) ↔
          oneSchema.Distinguished) ∧
      oneSchema.Distinguished := by
  have hgroup : group oneSchema.members = [oneSchema] := by
    simp [group, place, oneSchema, members, relationSize, name, add]
  have hfault : oneSchema.declaration.fault? = none := by decide +kernel
  have hregistered : Registry.empty.registerAll oneSchema.members =
      (⟨[oneSchema.metric]⟩, none) := by
    simp [Registry.registerAll, hgroup, Registry.registerFamilies, Registry.registerFamily, hfault,
      Registry.register, Registry.contains, Registry.empty]
  have hmem : oneSchema ∈ group oneSchema.members := by
    rw [hgroup]
    exact List.mem_singleton_self _
  refine ⟨hregistered, hmem, separates_iff_distinguished hregistered hmem, ?_⟩
  have hvalues : ∀ o₁ ∈ oneSchema.accepted.map Observation.labelValues,
      ∀ o₂ ∈ oneSchema.accepted.map Observation.labelValues, o₁ ≠ o₂ →
        identity o₁ ≠ identity o₂ := by
    decide +kernel
  intro o₁ h₁ o₂ h₂
  exact hvalues _ (List.mem_map_of_mem h₁) _ (List.mem_map_of_mem h₂)

/-- The relation `c` of the schema `ab` and the relation `bc` of the schema `a` share one sample. -/
theorem schemas_not_separated :
    let os := [relationSize "ab" "c" 1, relationSize "a" "bc" 2]
    (Registry.empty.registerAll os).2 = none ∧
      ∃ f ∈ group os, ∃ o₁ ∈ f.accepted, ∃ o₂ ∈ f.accepted, o₁.labelValues ≠ o₂.labelValues ∧
        ¬ f.Separates (Registry.empty.registerAll os).1 o₁ o₂ := by
  intro os
  have hgroup : group os = [⟨relationSize "ab" "c" 1, [relationSize "a" "bc" 2]⟩] := by
    simp [os, group, place, relationSize, name, add]
  have hsamples : ∀ m ∈ (Registry.empty.registerAll os).1.gather, m.samples.length = 1 := by
    decide +kernel
  have hmem : ⟨relationSize "ab" "c" 1, [relationSize "a" "bc" 2]⟩ ∈ group os := by
    rw [hgroup]
    exact List.mem_singleton_self _
  refine ⟨by decide +kernel, _, hmem, relationSize "ab" "c" 1, ?_, relationSize "a" "bc" 2, ?_,
    by decide +kernel, ?_⟩
  · rw [mem_accepted_iff]
    exact ⟨List.mem_cons_self, rfl, rfl, rfl⟩
  · rw [mem_accepted_iff]
    exact ⟨List.mem_cons_of_mem _ List.mem_cons_self, rfl, rfl, rfl⟩
  · rintro ⟨m, hm, _, s₁, hs₁, s₂, hs₂, _, _, hne⟩
    obtain ⟨s, hs⟩ := List.length_eq_one_iff.mp (hsamples m hm)
    rw [hs, List.mem_singleton] at hs₁ hs₂
    exact hne (congrArg Sample.labels (hs₁.trans hs₂.symm))

end Family
end PgMetrics.Exposition
