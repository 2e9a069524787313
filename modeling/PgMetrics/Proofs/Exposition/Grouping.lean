import PgMetrics.Proofs.Exposition.Registering
import PgMetrics.Proofs.FirstSeen
import PgMetrics.Service.Basic
import Mathlib.Data.List.Induction
import Mathlib.Data.List.Nodup

/-! # Families and what is rendered of them

Grouping gives every metric name that occurs one family, whose members are the observations of that
name in order.  Rendering succeeds exactly if every family is declared legally and no two metrics
have the same name, those of the process included; then there is one metric for each family.
-/
namespace PgMetrics.Exposition

theorem group_concat (os : List Observation) (o : Observation) :
    group (os ++ [o]) = place o (group os) := by
  simp [group]

/-- Families are found again by their name, so each name has one, at the place of its first
observation. -/
theorem firstSeen_names_group (os : List Observation) :
    FirstSeen (os.map Observation.name) ((group os).map Family.name) := by
  induction os using List.reverseRecOn with
  | nil => exact FirstSeen.nil
  | append_singleton rest o ih =>
    rw [group_concat, names_place, List.map_append, List.map_singleton]
    exact ih.concat o.name

theorem nodup_names_group (os : List Observation) : ((group os).map Family.name).Nodup :=
  (firstSeen_names_group os).nodup

theorem mem_names_group_iff (os : List Observation) (n : String) :
    n ∈ (group os).map Family.name ↔ n ∈ os.map Observation.name :=
  (firstSeen_names_group os).mem_iff n

@[simp] theorem names_metrics (fs : List Family) :
    (fs.map Family.metric).map Metric.name = fs.map Family.name := by
  rw [List.map_map]
  exact List.map_congr_left fun f _ => f.name_metric

/-- The families after an observation: that of its name has it as its last member. -/
theorem mem_place {o : Observation} {fs : List Family} {f : Family}
    (hfs : (fs.map Family.name).Nodup) (h : f ∈ place o fs) :
    (∃ g ∈ fs, g.name = o.name ∧ f = g.add o) ∨ (f ∈ fs ∧ f.name ≠ o.name) ∨
      (o.name ∉ fs.map Family.name ∧ f = ⟨o, []⟩) := by
  induction fs with
  | nil =>
    rw [place, List.mem_singleton] at h
    exact Or.inr (Or.inr ⟨List.not_mem_nil, h⟩)
  | cons g rest ih =>
    rw [List.map_cons, List.nodup_cons] at hfs
    unfold place at h
    split at h
    · rename_i hname
      rcases List.mem_cons.mp h with rfl | hrest
      · exact Or.inl ⟨g, List.mem_cons_self, hname, rfl⟩
      · have hne : f.name ≠ o.name := by
          rintro heq
          exact hfs.1 (hname.trans heq.symm ▸ List.mem_map_of_mem hrest)
        exact Or.inr (Or.inl ⟨List.mem_cons_of_mem _ hrest, hne⟩)
    · rename_i hname
      rcases List.mem_cons.mp h with rfl | hrest
      · exact Or.inr (Or.inl ⟨List.mem_cons_self, hname⟩)
      · rcases ih hfs.2 hrest with ⟨g', hg', hadd⟩ | ⟨hf, hne⟩ | ⟨hnew, hf⟩
        · exact Or.inl ⟨g', List.mem_cons_of_mem _ hg', hadd⟩
        · exact Or.inr (Or.inl ⟨List.mem_cons_of_mem _ hf, hne⟩)
        · refine Or.inr (Or.inr ⟨?_, hf⟩)
          rw [List.map_cons, List.mem_cons]
          exact fun hmem => hmem.elim (fun heq => hname heq.symm) hnew

theorem members_of_mem_group {os : List Observation} {f : Family} (h : f ∈ group os) :
    f.members = os.filter fun o => o.name = f.name := by
  induction os using List.reverseRecOn generalizing f with
  | nil => cases h
  | append_singleton rest o ih =>
    rw [group_concat] at h
    rw [List.filter_append]
    rcases mem_place (nodup_names_group rest) h with ⟨g, hg, hname, rfl⟩ | ⟨hf, hne⟩ | ⟨hnew, rfl⟩
    · rw [Family.members_add, ih hg, Family.name_add]
      simp [hname]
    · rw [ih hf]
      simp [Ne.symm hne]
    · rw [mem_names_group_iff] at hnew
      have hnone : (rest.filter fun o' => o'.name = o.name) = [] := by
        rw [List.filter_eq_nil_iff]
        intro o' ho' heq
        exact hnew (List.mem_map.mpr ⟨o', ho', of_decide_eq_true heq⟩)
      change [o] = (rest.filter fun o' => o'.name = o.name) ++ [o].filter fun o' => o'.name = o.name
      simp [hnone]

/-- Under distinct keys an element is the only one with its key. -/
theorem filter_eq_singleton {α β : Type} [DecidableEq β] {key : α → β} {as : List α} {a : α}
    (has : (as.map key).Nodup) (h : a ∈ as) : (as.filter fun b => key b = key a) = [a] := by
  induction as with
  | nil => cases h
  | cons b rest ih =>
    rw [List.map_cons, List.nodup_cons] at has
    rcases List.mem_cons.mp h with rfl | hrest
    · have hnone : (rest.filter fun b => key b = key a) = [] := by
        rw [List.filter_eq_nil_iff]
        intro b hb heq
        exact has.1 (of_decide_eq_true heq ▸ List.mem_map_of_mem hb)
      simp [hnone]
    · have hne : key b ≠ key a := by
        intro heq
        exact has.1 (heq ▸ List.mem_map_of_mem hrest)
      simp [hne, ih has.2 hrest]

/-- The observations of a name that occurs are those of its only family. -/
theorem filter_group {os rest : List Observation} {o : Observation}
    (h : (os.filter fun p => p.name = o.name) = o :: rest) :
    ((group os).filter fun f => f.name = o.name) = [⟨o, rest⟩] := by
  have ho : o ∈ os := (List.mem_filter.mp (h ▸ List.mem_cons_self)).1
  obtain ⟨f, hf, hname⟩ :=
    List.mem_map.mp ((mem_names_group_iff os o.name).mpr (List.mem_map_of_mem ho))
  have hmembers : f.members = o :: rest := by
    rw [members_of_mem_group hf, hname, h]
  have hfamily : f = ⟨o, rest⟩ := by
    cases f
    simpa [Family.members] using hmembers
  rw [← hname, filter_eq_singleton (nodup_names_group os) hf, hfamily]

namespace Registry

theorem register_eq_ok_iff {r r' : Registry} {m : Metric} :
    r.register m = .ok r' ↔ m.name ∉ r.metrics.map Metric.name ∧ r' = ⟨r.metrics ++ [m]⟩ := by
  unfold register
  have hcontains := r.contains_iff m.name
  rw [← List.mem_map] at hcontains
  cases h : r.contains m.name with
  | true => simp [hcontains.mp h]
  | false =>
    have hfree : m.name ∉ r.metrics.map Metric.name := by
      intro hmem
      rw [hcontains.mpr hmem] at h
      cases h
    simp only [Bool.false_eq_true, if_false, Except.ok.injEq, hfree, not_false_eq_true, true_and]
    exact eq_comm

/-- Plain metrics are registered in order if no name is taken. -/
theorem registerMetrics_eq_ok_iff {r r' : Registry} {ms : List Metric}
    (hr : (r.metrics.map Metric.name).Nodup) :
    r.registerMetrics ms = .ok r' ↔
      ((r.metrics ++ ms).map Metric.name).Nodup ∧ r' = ⟨r.metrics ++ ms⟩ := by
  induction ms generalizing r with
  | nil => simp [registerMetrics, hr, eq_comm]
  | cons m rest ih =>
    unfold registerMetrics
    cases h : r.register m with
    | error fault =>
      have htaken : m.name ∈ r.metrics.map Metric.name := by
        by_contra hfree
        rw [register_eq_ok_iff.mpr ⟨hfree, rfl⟩] at h
        cases h
      simp only [reduceCtorEq, false_iff]
      rintro ⟨hnodup, _⟩
      rw [List.map_append, List.map_cons, List.nodup_append] at hnodup
      exact hnodup.2.2 m.name htaken m.name List.mem_cons_self rfl
    | ok r₁ =>
      obtain ⟨hfree, rfl⟩ := register_eq_ok_iff.mp h
      have hnodup : ((r.metrics ++ [m]).map Metric.name).Nodup := by
        rw [List.map_append, List.nodup_append]
        refine ⟨hr, List.nodup_singleton _, ?_⟩
        intro n hn n' hn' heq
        rw [List.map_singleton, List.mem_singleton] at hn'
        exact hfree (hn' ▸ heq ▸ hn)
      simpa only [List.append_assoc, List.singleton_append] using ih hnodup

/-- Families are registered as their metrics if they are declared legally. -/
theorem registerFamilies_eq_none_iff {r r' : Registry} {fs : List Family} :
    r.registerFamilies fs = (r', none) ↔
      (∀ f ∈ fs, f.declaration.fault? = none) ∧
        r.registerMetrics (fs.map Family.metric) = .ok r' := by
  induction fs generalizing r with
  | nil => simp [registerFamilies, registerMetrics]
  | cons f rest ih =>
    simp only [registerFamilies, registerFamily, registerMetrics, List.map_cons,
      List.forall_mem_cons]
    cases hfault : f.declaration.fault? with
    | some fault => simp
    | none =>
      cases h : r.register f.metric with
      | error fault => simp
      | ok r₁ => simpa using ih

end Registry

theorem nodup_names_metrics (os : List Observation) :
    (((group os).map Family.metric).map Metric.name).Nodup := by
  rw [names_metrics]
  exact nodup_names_group os

end PgMetrics.Exposition

namespace PgMetrics.Service

open Exposition

variable {σ κ : Type}

/-- Everything that a successful rendering shows: one metric for each family, then the process. -/
def rendered (s : Service σ κ) (os : List Observation) : List Metric :=
  (group os).map Family.metric ++ (s.process.map ProcessReadings.metrics).getD []

theorem registerAll_eq_none_iff (os : List Observation) (r : Registry) :
    Registry.empty.registerAll os = (r, none) ↔
      (∀ f ∈ group os, f.declaration.fault? = none) ∧ r = ⟨(group os).map Family.metric⟩ := by
  have hempty : (Registry.empty.metrics.map Metric.name).Nodup := List.nodup_nil
  have hnames : ((Registry.empty.metrics ++ (group os).map Family.metric).map Metric.name).Nodup :=
    nodup_names_metrics os
  rw [Registry.registerAll, Registry.registerFamilies_eq_none_iff,
    Registry.registerMetrics_eq_ok_iff hempty]
  simp only [hnames, true_and]
  rfl

/-- Rendering succeeds exactly if all families are declared legally and no name occurs twice. -/
theorem exposition_eq_ok_iff (s : Service σ κ) (os : List Observation) (text : String) :
    s.exposition os = .ok text ↔
      (∀ f ∈ group os, f.declaration.fault? = none) ∧ ((s.rendered os).map Metric.name).Nodup ∧
        text = Registry.text ⟨s.rendered os⟩ := by
  have hprocess : ∀ r, (⟨(group os).map Family.metric⟩ : Registry).registerMetrics
      ((s.process.map ProcessReadings.metrics).getD []) = .ok r ↔
        ((s.rendered os).map Metric.name).Nodup ∧ r = ⟨s.rendered os⟩ := by
    intro r
    exact Registry.registerMetrics_eq_ok_iff (nodup_names_metrics os)
  unfold exposition
  cases hr : Registry.empty.registerAll os with
  | mk registry outcome =>
    cases outcome with
    | some fault =>
      simp only [reduceCtorEq, false_iff]
      rintro ⟨hlegal, _⟩
      rw [(registerAll_eq_none_iff os _).mpr ⟨hlegal, rfl⟩] at hr
      cases hr
    | none =>
      obtain ⟨hlegal, rfl⟩ := (registerAll_eq_none_iff os _).mp hr
      cases hm : (⟨(group os).map Family.metric⟩ : Registry).registerMetrics
          ((s.process.map ProcessReadings.metrics).getD []) with
      | error fault =>
        simp only [hm, reduceCtorEq, false_iff]
        rintro ⟨_, hnodup, _⟩
        rw [(hprocess _).mpr ⟨hnodup, rfl⟩] at hm
        cases hm
      | ok r =>
        obtain ⟨hnodup, rfl⟩ := (hprocess r).mp hm
        simp only [hm, Except.ok.injEq]
        exact ⟨fun h => ⟨hlegal, hnodup, h.symm⟩, fun h => h.2.2.symm⟩

end PgMetrics.Service
