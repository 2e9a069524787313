import PgMetrics.Proofs.Exposition.Faithful
import Mathlib.Data.List.Dedup

/-! # How many samples there are

A gauge with labels has one sample for every identity among its observations.  So each observation
has a sample of its own exactly if no two of them have the same identity, and then the values that
are exposed are theirs.
-/
namespace PgMetrics.Exposition

def identities (os : List Observation) : List UInt64 := os.map fun o => identity o.labelValues

theorem latestOf?_of_nodup {os : List Observation} (h : (identities os).Nodup) {o : Observation}
    (ho : o ∈ os) : latestOf? os (identity o.labelValues) = some o := by
  rw [latestOf?, filter_eq_singleton h ho, List.getLast?_singleton]

namespace Family

variable {f : Family}

/-- With labels no series is there from the start. -/
theorem exists_member (hlabels : f.first.labelNames ≠ []) {t : Series} (ht : t ∈ f.metric.series) :
    ∃ o ∈ f.accepted, o.labelValues = t.labelValues := by
  rcases f.holds_metric.origin t ht with ⟨hnone, _⟩ | horigin
  · exact absurd hnone hlabels
  · exact horigin

theorem identities_perm (hlabels : f.first.labelNames ≠ []) :
    (f.metric.series.map fun t => identity t.labelValues).Perm (identities f.accepted).dedup := by
  rw [List.perm_ext_iff_of_nodup f.holds_metric.nodup (List.nodup_dedup _)]
  intro id
  rw [List.mem_dedup, identities, List.mem_map, List.mem_map]
  constructor
  · rintro ⟨t, ht, rfl⟩
    obtain ⟨o, ho, heq⟩ := exists_member hlabels ht
    exact ⟨o, ho, congrArg identity heq⟩
  · rintro ⟨o, ho, rfl⟩
    obtain ⟨t, ht, hid, _⟩ := f.holds_metric.latest o ho
    exact ⟨t, ht, hid⟩

/-- If no two members have the same identity, each one has a series with its value. -/
theorem values_perm (hlabels : f.first.labelNames ≠ []) (hnodup : (identities f.accepted).Nodup) :
    (f.metric.series.map Series.value).Perm
      (f.accepted.map fun o => exposed f.first.kind o.value) := by
  let seen := fun t : Series => (identity t.labelValues, t.value)
  let due := fun o : Observation => (identity o.labelValues, exposed f.first.kind o.value)
  have hseen : (f.metric.series.map seen).Nodup := by
    refine List.Nodup.of_map Prod.fst ?_
    rw [List.map_map]
    exact f.holds_metric.nodup
  have hdue : (f.accepted.map due).Nodup := by
    refine List.Nodup.of_map Prod.fst ?_
    rw [List.map_map]
    exact hnodup
  have hlatest : ∀ o ∈ f.accepted, ∃ t ∈ f.metric.series, seen t = due o := by
    intro o ho
    obtain ⟨t, ht, hid, last, hlast, hvalue⟩ := f.holds_metric.latest o ho
    rw [latestOf?_of_nodup hnodup ho, Option.some.injEq] at hlast
    exact ⟨t, ht, Prod.ext hid (hlast ▸ hvalue)⟩
  have hperm : (f.metric.series.map seen).Perm (f.accepted.map due) := by
    rw [List.perm_ext_iff_of_nodup hseen hdue]
    intro pair
    rw [List.mem_map, List.mem_map]
    constructor
    · rintro ⟨t, ht, rfl⟩
      obtain ⟨o, ho, heq⟩ := exists_member hlabels ht
      obtain ⟨t', ht', hsame⟩ := hlatest o ho
      have hid : identity t'.labelValues = identity t.labelValues :=
        (congrArg Prod.fst hsame).trans (congrArg identity heq)
      rw [← List.inj_on_of_nodup_map f.holds_metric.nodup ht' ht hid]
      exact ⟨o, ho, hsame.symm⟩
    · rintro ⟨o, ho, rfl⟩
      exact hlatest o ho
  have hvalues := hperm.map Prod.snd
  rwa [List.map_map, List.map_map] at hvalues

/-- There are as many samples as identities, and the values are those of the members exactly if no
identity occurs twice. -/
theorem tally_readings (hlabels : f.first.labelNames ≠ []) :
    f.metric.entry.readings.length = (identities f.accepted).dedup.length ∧
      ((f.metric.entry.readings.map Reading.value).Perm
          (f.accepted.map fun o => written f.first.kind o.value) ↔
        (identities f.accepted).Nodup) := by
  have hlength : f.metric.entry.readings.length = (identities f.accepted).dedup.length := by
    rw [f.metric.readings_perm_series.length_eq, List.length_map,
      ← (identities_perm hlabels).length_eq, List.length_map]
  refine ⟨hlength, fun hperm => ?_, fun hnodup => ?_⟩
  · have hall := hperm.length_eq
    rw [List.length_map, List.length_map, hlength] at hall
    have hself : (identities f.accepted).dedup = identities f.accepted :=
      (List.dedup_sublist _).eq_of_length (by rw [hall, identities, List.length_map])
    exact List.dedup_eq_self.mp hself
  · have hreadings := f.metric.readings_perm_series.map Reading.value
    have hvalues := (values_perm hlabels hnodup).map Decimal.text
    have htext : ∀ o ∈ f.accepted,
        Decimal.text (exposed f.first.kind o.value) = written f.first.kind o.value :=
      fun o _ => text_exposed o.value
    rw [List.map_map] at hreadings
    rw [List.map_map, List.map_map] at hvalues
    exact hreadings.trans (hvalues.trans (.of_eq (List.map_congr_left htext)))

end Family

def readingsOf (name : String) (es : List Entry) : List Reading :=
  (es.filter fun e => e.name = name).flatMap Entry.readings

section
variable {r : Registry}

theorem readingsOf_entries (ms : List Metric) (name : String) :
    readingsOf name (ms.map Metric.entry) =
      (ms.filter fun m => m.name = name).flatMap fun m => m.entry.readings := by
  rw [readingsOf, List.filter_map, List.flatMap_map]
  rfl

theorem readingsOf_of_mem (h : (r.metrics.map Metric.name).Nodup) {m : Metric}
    (hm : m ∈ r.metrics) :
    readingsOf m.name (r.gather.map Metric.entry) = m.entry.readings := by
  rw [readingsOf_entries]
  by_cases hseries : m.series = []
  · have hnone : (r.gather.filter fun m' => m'.name = m.name) = [] := by
      rw [List.filter_eq_nil_iff]
      intro m' hm' hname
      obtain ⟨hmem, hsome⟩ := (r.mem_gather_iff m').mp hm'
      have heq : m' = m := List.inj_on_of_nodup_map h hmem hm (of_decide_eq_true hname)
      exact hsome (heq ▸ hseries)
    have hreadings : m.entry.readings = [] := by
      by_contra hne
      exact m.readings_ne_nil_iff.mp hne hseries
    rw [hnone, hreadings, List.flatMap_nil]
  · have hgather : m ∈ r.gather := (r.mem_gather_iff m).mpr ⟨hm, hseries⟩
    rw [filter_eq_singleton (Registry.nodup_names_gather h) hgather, List.flatMap_singleton]

theorem readingsOf_of_notMem {name : String} (h : name ∉ r.metrics.map Metric.name) :
    readingsOf name (r.gather.map Metric.entry) = [] := by
  have hnone : (r.gather.filter fun m => m.name = name) = [] := by
    rw [List.filter_eq_nil_iff]
    intro m hm hname
    exact h (List.mem_map.mpr ⟨m, ((r.mem_gather_iff m).mp hm).1, of_decide_eq_true hname⟩)
  rw [readingsOf_entries, hnone, List.flatMap_nil]

end
end PgMetrics.Exposition

namespace PgMetrics.Service

open Exposition

/-- The samples under the name of a family are those of its metric. -/
theorem readingsOf_exposition {σ κ : Type} {s : Service σ κ} {os : List Observation} {text : String}
    (h : s.exposition os = .ok text) {f : Family} (hf : f ∈ group os) :
    readingsOf f.name ((Registry.gather ⟨s.rendered os⟩).map Metric.entry) =
      f.metric.entry.readings := by
  obtain ⟨_, hnames, _⟩ := (s.exposition_eq_ok_iff os text).mp h
  have hmem : f.metric ∈ s.rendered os := List.mem_append_left _ (List.mem_map_of_mem hf)
  rw [← readingsOf_of_mem (r := ⟨s.rendered os⟩) hnames hmem, f.name_metric]

/-- A gauge with labels has as many samples in the text as there are identities among its
observations, and their values are those of the observations exactly if no identity occurs twice. -/
theorem tally_exposition {σ κ : Type} {s : Service σ κ} {os : List Observation} {text : String}
    (h : s.exposition os = .ok text) {name : String} {labelNames : List String}
    (hprocess : ∀ r : ProcessReadings, name ∉ r.metrics.map Metric.name)
    (hgauge : ∀ o ∈ os, o.name = name → o.kind = .gauge ∧ o.labelNames = labelNames)
    (hlabels : labelNames ≠ []) :
    let due := os.filter fun o => o.name = name
    ∃ es, readText text = some es ∧
      (readingsOf name es).length = (identities due).dedup.length ∧
      (((readingsOf name es).map Reading.value).Perm (due.map fun o => Decimal.text o.value) ↔
        (identities due).Nodup) := by
  intro due
  refine ⟨_, readText_exposition h, ?_⟩
  by_cases hname : name ∈ os.map Observation.name
  · obtain ⟨f, hf, rfl⟩ := List.mem_map.mp ((mem_names_group_iff os name).mpr hname)
    have hmembers : f.members = due := members_of_mem_group hf
    have hdue : ∀ o ∈ f.members, o.kind = .gauge ∧ o.labelNames = labelNames := by
      intro o ho
      rw [hmembers] at ho
      obtain ⟨ho, heq⟩ := List.mem_filter.mp ho
      exact hgauge o ho (of_decide_eq_true heq)
    obtain ⟨hkind, hfirst⟩ := hdue f.first List.mem_cons_self
    have haccepted : f.accepted = due := by
      rw [← hmembers, Family.accepted, List.filter_eq_self]
      intro o ho
      obtain ⟨hkind', hnames'⟩ := hdue o ho
      rw [Family.agrees, hkind, hfirst, hkind', hnames']
      simp [admissible]
    have htally := f.tally_readings (hfirst ▸ hlabels)
    rw [haccepted, hkind] at htally
    rw [readingsOf_exposition h hf]
    exact htally
  · have hdue : due = [] := by
      rw [List.filter_eq_nil_iff]
      intro o ho heq
      exact hname (List.mem_map.mpr ⟨o, ho, of_decide_eq_true heq⟩)
    have habsent : name ∉ (s.rendered os).map Metric.name := by
      rw [rendered, List.map_append, names_metrics, List.mem_append, mem_names_group_iff]
      rintro (hgroup | hown)
      · exact hname hgroup
      · cases hp : s.process with
        | none => simp [hp] at hown
        | some r => exact hprocess r (by simpa [hp] using hown)
    rw [readingsOf_of_notMem (r := ⟨s.rendered os⟩) habsent, hdue]
    exact ⟨rfl, iff_of_true (List.Perm.refl _) List.nodup_nil⟩

end PgMetrics.Service
