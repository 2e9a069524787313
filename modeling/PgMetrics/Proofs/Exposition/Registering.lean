import PgMetrics.Exposition.Text
import Mathlib.Data.List.Basic

/-! # What registering comes to

A registration that succeeds adds the metric of each family in order and nothing else, under names
that were free.  So every family is found again as exactly one metric.
-/
namespace PgMetrics.Exposition

theorem Declaration.fault?_eq_none_iff {d : Declaration} : d.fault? = none ↔
    d.help ≠ "" ∧ isMetricName d.name = true ∧ (∀ l ∈ d.labelNames, isLabelName l = true) ∧
      d.labelNames.Nodup := by
  unfold fault?
  by_cases hhelp : d.help = ""
  · simp [hhelp]
  · cases hname : isMetricName d.name with
    | false => simp [hhelp]
    | true => simp [hhelp, labelFault?_eq_none_iff]

theorem Metric.mem_samples_iff {m : Metric} {s : Sample} :
    s ∈ m.samples ↔ ∃ t ∈ m.series, t.sample m.declaration.labelNames = s := by
  rw [samples, List.mem_mergeSort, List.mem_map]

/-- A metric that is given values stays declared as it was. -/
theorem declaration_foldl_set (m : Metric) (os : List Observation) :
    (os.foldl (fun m o => m.set o.labelValues o.value) m).declaration = m.declaration := by
  induction os generalizing m with
  | nil => rfl
  | cons o rest ih => rw [List.foldl_cons, ih, Metric.declaration_set]

@[simp] theorem Family.declaration_metric (f : Family) : f.metric.declaration = f.declaration :=
  declaration_foldl_set _ _

@[simp] theorem Family.name_metric (f : Family) : f.metric.name = f.name :=
  congrArg Declaration.name f.declaration_metric

namespace Registry

theorem contains_iff (r : Registry) (name : String) :
    r.contains name = true ↔ ∃ m ∈ r.metrics, m.name = name := by
  simp [contains]

/-- A family is registered if its declaration is legal and its name is free. -/
theorem registerFamily_eq_ok {r r' : Registry} {f : Family} (h : r.registerFamily f = .ok r') :
    f.declaration.fault? = none ∧ (∀ m ∈ r.metrics, m.name ≠ f.name) ∧
      r' = ⟨r.metrics ++ [f.metric]⟩ := by
  unfold registerFamily at h
  cases hfault : f.declaration.fault? with
  | some fault =>
    rw [hfault] at h
    cases h
  | none =>
    simp only [hfault, register] at h
    cases htaken : r.contains f.metric.name with
    | true =>
      rw [htaken] at h
      cases h
    | false =>
      rw [htaken] at h
      cases h
      refine ⟨rfl, ?_, rfl⟩
      intro m hm hname
      have hcontains := (r.contains_iff f.metric.name).mpr ⟨m, hm, by rw [hname, f.name_metric]⟩
      rw [htaken] at hcontains
      cases hcontains

/-- A registered family is legal, and its metric is the only one of its name. -/
theorem registerFamilies_spec {r r' : Registry} {fs : List Family}
    (h : r.registerFamilies fs = (r', none)) :
    (∃ ms, r'.metrics = r.metrics ++ ms ∧ ∀ m ∈ ms, ∀ m' ∈ r.metrics, m'.name ≠ m.name) ∧
      ∀ f ∈ fs, f.declaration.fault? = none ∧ f.metric ∈ r'.metrics ∧
        ∀ m ∈ r'.metrics, m.name = f.name → m = f.metric := by
  induction fs generalizing r with
  | nil =>
    cases h
    exact ⟨⟨[], (List.append_nil _).symm, fun m hm => absurd hm List.not_mem_nil⟩,
      fun f hf => absurd hf List.not_mem_nil⟩
  | cons f rest ih =>
    unfold registerFamilies at h
    cases hf : r.registerFamily f with
    | error fault =>
      rw [hf] at h
      cases h
    | ok r₁ =>
      rw [hf] at h
      obtain ⟨hfault, hfree, rfl⟩ := registerFamily_eq_ok hf
      obtain ⟨⟨ms, hms, hnew⟩, hrest⟩ := ih h
      refine ⟨⟨f.metric :: ms, ?_, ?_⟩, ?_⟩
      · rw [hms, List.append_assoc, List.singleton_append]
      · intro m hm m' hm'
        rcases List.mem_cons.mp hm with rfl | hm
        · rw [f.name_metric]
          exact hfree m' hm'
        · exact hnew m hm m' (List.mem_append_left _ hm')
      · rw [List.forall_mem_cons]
        refine ⟨⟨hfault, ?_, ?_⟩, hrest⟩
        · rw [hms]
          exact List.mem_append_left _ List.mem_concat_self
        · intro m hm hname
          rw [hms] at hm
          rcases List.mem_append.mp hm with hold | hlater
          · rcases List.mem_append.mp hold with hold | hself
            · exact absurd hname (hfree m hold)
            · exact List.mem_singleton.mp hself
          · have hne := hnew m hlater f.metric List.mem_concat_self
            rw [f.name_metric] at hne
            exact absurd hname.symm hne

theorem mem_gather_iff (r : Registry) (m : Metric) :
    m ∈ r.gather ↔ m ∈ r.metrics ∧ m.series ≠ [] := by
  simp [gather]

theorem nodup_names_gather {r : Registry} (h : (r.metrics.map Metric.name).Nodup) :
    (r.gather.map Metric.name).Nodup := by
  refine ((List.mergeSort_perm _ _).map Metric.name).nodup_iff.mpr ?_
  exact h.sublist (List.filter_sublist.map Metric.name)

end Registry
end PgMetrics.Exposition
