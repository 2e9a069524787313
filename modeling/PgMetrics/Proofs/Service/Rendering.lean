import PgMetrics.Proofs.Exposition.Grouping
import PgMetrics.Proofs.Service.Signal
import PgMetrics.Proofs.Statistics.Schema
import PgMetrics.Service.Http

/-! # What can always be rendered

A service that runs scrapers of the catalog returns only what the schema declares, whatever its
server does and whenever its scrapes are dropped.  So observations of one name agree, none is left
out for disagreeing with its family, and the metrics are served.
-/
namespace PgMetrics

open Exposition

/-- An observation that may be exposed next to the metrics of the process. -/
structure Observation.Legal (o : Observation) : Prop where
  help : o.help ≠ ""
  name : isMetricName o.name
  labelNames : ∀ l ∈ o.labelNames, isLabelName l
  distinct : o.labelNames.Nodup
  free : ∀ r : ProcessReadings, o.name ∉ r.metrics.map Metric.name

namespace Schema

variable {os : List Observation}

theorem legal_of_mem {o : Observation} (h : o.declaration ∈ schema) : o.Legal := by
  obtain ⟨_, hspelled, hnames, _⟩ := spelled_names
  have hlabels := labelFault?_eq_none_iff.mp (labelFault?_eq_none _ h)
  exact {
    help := help_ne_empty _ h
    name := hspelled.isMetricName hnames _ (List.mem_append_left _ (List.mem_map_of_mem h))
    labelNames := fun l hl => (hlabels.1 l hl).1
    distinct := hlabels.2
    free := fun _ => name_notMem_process h }

variable (hos : ∀ o ∈ os, o.declaration ∈ schema)

include hos in
theorem agrees_of_mem_group {f : Family} (hf : f ∈ group os) {o : Observation}
    (ho : o ∈ f.members) : f.agrees o := by
  have hmem : ∀ p ∈ f.members, p ∈ os ∧ p.name = f.name := by
    rw [members_of_mem_group hf]
    intro p hp
    simpa using hp
  have hfirst := hmem f.first List.mem_cons_self
  have heq : o.declaration = f.first.declaration :=
    eq_of_name_eq (hos o (hmem o ho).1) (hos _ hfirst.1) (hmem o ho).2
  have hkind := congrArg Declaration.kind heq
  have hlabelNames := congrArg Declaration.labelNames heq
  simp only [Observation.declaration] at hkind hlabelNames
  simp [Family.agrees, hkind, hlabelNames]

include hos in
theorem exists_exposition {σ κ : Type} (s : Service σ κ) : ∃ text, s.exposition os = .ok text := by
  have hfirst : ∀ f ∈ group os, f.declaration ∈ schema := by
    intro f hf
    have hmem : f.first ∈ f.members := List.mem_cons_self
    rw [members_of_mem_group hf] at hmem
    exact hos _ (List.mem_filter.mp hmem).1
  refine ⟨_, (s.exposition_eq_ok_iff os _).mpr ⟨?_, ?_, rfl⟩⟩
  · exact fun f hf => fault?_eq_none (hfirst f hf)
  · rw [Service.rendered, List.map_append, names_metrics]
    cases s.process with
    | none => simpa using nodup_names_group os
    | some r =>
      have hprocess := (List.nodup_append.mp nodup_names).2.1
      refine List.nodup_append.mpr ⟨nodup_names_group os, hprocess, ?_⟩
      rintro n hn _ hn' rfl
      obtain ⟨f, hf, rfl⟩ := List.mem_map.mp hn
      exact name_notMem_process (hfirst f hf) hn'

end Schema

namespace Service

variable {σ κ : Type}

/-- A service whose metrics can be served at a moment, whatever is asked for. -/
structure Serves (s : Service σ κ) (m : Moment σ) : Prop where
  uniform : ∀ only, ∀ o ∈ s.sink only m, ∀ o' ∈ s.sink only m, o.name = o'.name →
    o.kind = o'.kind ∧ o.help = o'.help ∧ o.labelNames = o'.labelNames
  legal : ∀ only, ∀ o ∈ s.sink only m, o.Legal
  /-- Nothing is left out for disagreeing with its family. -/
  agrees : ∀ only, ∀ f ∈ group (s.sink only m), ∀ o ∈ f.members, f.agrees o
  renders : ∀ only, ∃ text, ((s.render only).run m.time m.world).value = .ok text
  answers : ∀ query, ((s.metricsAnswer query).run m.time m.world).value.status =
    if (s.filterFault? (requestedScrapers query)).isSome then 400 else 200
  available : ∀ routes r, ((s.answer routes r).run m.time m.world).value.status ≠ 500

theorem serves_of_declared {s : Service σ κ} {m : Moment σ}
    (h : ∀ only, ∀ o ∈ s.sink only m, o.declaration ∈ schema) : s.Serves m := by
  have hrenders : ∀ only, ∃ text, ((s.render only).run m.time m.world).value = .ok text := by
    intro only
    obtain ⟨text, htext⟩ := Schema.exists_exposition (h only) s
    refine ⟨text, ?_⟩
    simpa [render, sink] using htext
  have hanswers : ∀ query, ((s.metricsAnswer query).run m.time m.world).value.status =
      if (s.filterFault? (requestedScrapers query)).isSome then 400 else 200 := by
    intro query
    obtain ⟨text, htext⟩ := hrenders (requestedScrapers query)
    simp only [metricsAnswer]
    cases s.filterFault? (requestedScrapers query) with
    | some fault => simp
    | none => simp [htext]
  refine ⟨?_, fun only o ho => Schema.legal_of_mem (h only o ho),
    fun only f hf o ho => Schema.agrees_of_mem_group (h only) hf ho, hrenders, hanswers, ?_⟩
  · intro only o ho o' ho' hname
    have heq : o.declaration = o'.declaration := eq_of_name_eq (h only o ho) (h only o' ho') hname
    exact ⟨congrArg Declaration.kind heq, congrArg Declaration.help heq,
      congrArg Declaration.labelNames heq⟩
  · intro routes r
    have hmetrics : ((s.metricsAnswer r.query).run m.time m.world).value.status ≠ 500 := by
      rw [hanswers]
      split <;> simp
    have hhealth : ((s.healthAnswer).run m.time m.world).value.status ≠ 500 := by
      simp only [healthAnswer, Activity.run_bind, Activity.run_pure]
      split <;> simp
    simp only [answer]
    cases routes.endpoint? r.path with
    | none => simp
    | some endpoint =>
      by_cases hmethod : r.method ∈ methods endpoint
      · cases endpoint with
        | metrics =>
          simp only [hmethod, if_true, Activity.run_bind, Activity.run_pure]
          split <;> exact hmetrics
        | health =>
          simp only [hmethod, if_true, Activity.run_bind, Activity.run_pure]
          split <;> exact hhealth
      · simp [hmethod]

/-- Everything is declared that is returned of what the statistics make. -/
theorem declared_sink {s : Service σ κ} {m : Moment σ}
    (hmakes : ∀ r ∈ s.scrapers.all, r.source.Makes (Statistics.Declared Statistics.schema))
    (hcaches : m.world.caches.Hold (Statistics.Declared Statistics.schema)) (only : List String) :
    ∀ o ∈ s.sink only m, o.declaration ∈ schema := by
  have hreport : ∀ {d}, d ∈ Scrape.schema → d ∈ schema := List.mem_append_left _
  have hlaw : Scrape.Law (Statistics.Declared Statistics.schema)
      fun os => ∀ o ∈ os, o.declaration ∈ schema := by
    refine ⟨fun h h' => List.forall_mem_append.mpr ⟨h, h'⟩,
      fun h o ho => List.mem_append_right _ (h o ho), ?_, ?_⟩
    · intro v o ho
      rw [List.mem_singleton.mp ho]
      exact hreport (List.mem_of_getElem? (i := 1) rfl)
    · intro scraper database span verdict o ho
      rcases List.mem_pair.mp ho with rfl | rfl
      · exact hreport (List.mem_of_getElem? (i := 2) rfl)
      · exact hreport (List.mem_of_getElem? (i := 3) rfl)
  have hup : ∀ value, (Scrape.up value).declaration ∈ schema := fun _ =>
    hreport List.mem_cons_self
  rcases sink_lawful hlaw s only m hcaches (pushes_log hmakes only m) with
    ⟨_, hsink⟩ | ⟨_, _, hsink⟩ | ⟨_, rest, _, _, hsink, hrest⟩
  · simp [hsink]
  · simp [hsink, hup]
  · simpa [hsink, hup] using hrest

/-- With scrapers of the catalog the metrics can always be served. -/
theorem serves_selection (sel : Selection) (wire : Wire σ κ) (gateway : Gateway σ κ)
    (target : Target) (excluded : List String) (timeout : Nat) (process : Option ProcessReadings)
    (ops : List (Operation σ)) (time : Nat) (server : σ) :
    let s : Service σ κ := ⟨gateway, target, sel.scrapers wire, excluded, timeout, process⟩
    s.Serves (s.reached ops ⟨time, ⟨server, .empty⟩⟩) := by
  intro s
  have hmakes := sel.makes wire
  exact serves_of_declared fun only =>
    declared_sink hmakes (hold_reached hmakes ops Caches.hold_empty) only

end Service

/-- No statistic makes what a scrape reports of itself. -/
theorem Statistics.name_notMem_scrape {o : Observation} (h : Declared schema o) :
    o.name ∉ Scrape.schema.map Declaration.name := by
  have hnodup := (List.nodup_append.mp nodup_names).1
  rw [PgMetrics.schema, List.map_append] at hnodup
  intro hmem
  exact (List.nodup_append.mp hnodup).2.2 _ hmem _ (List.mem_map_of_mem h) rfl

/-- An exporter that may connect for less time than it may scrape always has a signal. -/
theorem Exporter.signalled {σ κ : Type} (e : Exporter) (wire : Wire σ κ)
    (h : e.configuration.connectTimeout < e.configuration.scrapeTimeout)
    (ops : List (Operation σ)) (time : Nat) (server : σ) (only : List String) :
    (e.service wire).Signalled only ((e.service wire).reached ops ⟨time, ⟨server, .empty⟩⟩) := by
  have hmakes : ∀ r ∈ (e.service wire).scrapers.all,
      r.source.Makes fun o => o.name ≠ "postgres_up" := by
    intro r hr session version time server o ho
    have hdeclared := e.configuration.selection.makes wire r hr session version time server o ho
    exact fun hname => Statistics.name_notMem_scrape hdeclared (hname ▸ List.mem_cons_self)
  have hcaches := Service.hold_reached hmakes ops (m := ⟨time, ⟨server, .empty⟩⟩)
    Caches.hold_empty
  exact (Service.signalled_iff_of_hold hmakes hcaches only).1.mpr (e.endsWithin_connect wire h _ _)

end PgMetrics
