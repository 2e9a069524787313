import PgMetrics.Proofs.Exposition.Grouping
import PgMetrics.Proofs.Scrape.Contents
import PgMetrics.Rehearsal.Stage
import PgMetrics.Startup

/-! # Whether the server is up

A scrape reports whether the server is up once its first attempt to connect has ended, with a
connection or without one.  If it is dropped before that it returns nothing at all, so the signal is
there exactly if that attempt ends by the deadline of the scrape.  An exporter that gives up
connecting before that deadline always has one.
-/
namespace PgMetrics

namespace Exposition

def signalMetric (value : Float) : Metric where
  declaration := ⟨"postgres_up", "Whether the Postgres server is up.", .gauge, []⟩
  series := [⟨[], value⟩]

theorem metric_up (value : Float) :
    (⟨Scrape.up value, []⟩ : Family).metric = signalMetric value := by
  have haccepted : (⟨Scrape.up value, []⟩ : Family).accepted = [Scrape.up value] := by
    simp [Family.accepted, Family.members, Family.agrees, admissible, Scrape.up]
  rw [Family.metric, haccepted]
  simp [Metric.new, Metric.set, setSeries, Family.declaration, signalMetric, Scrape.up,
    Observation.labelNames, Observation.labelValues]

end Exposition

namespace Service

open Exposition

variable {σ κ : Type}

/-- The signal is returned once, with that value, and so it is exposed. -/
structure Signals (s : Service σ κ) (only : List String) (m : Moment σ) (value : Float) : Prop where
  returned : (s.sink only m).filter (fun o => o.name = "postgres_up") = [Scrape.up value]
  exposed : ∀ text, s.exposition (s.sink only m) = .ok text →
    ∃ metrics : List Metric, text = String.join (metrics.map Metric.text) ∧
      metrics.filter (fun metric => metric.name = "postgres_up") = [signalMetric value]

/-- There is one signal, and it tells of a server that is up only with an open connection. -/
def Signalled (s : Service σ κ) (only : List String) (m : Moment σ) : Prop :=
  s.Signals only m 0 ∨ s.Signals only m 1 ∧ .opened 0 s.target.database ∈ s.log only m

theorem filter_metrics_process (r : ProcessReadings) :
    r.metrics.filter (fun metric => metric.name = "postgres_up") = [] := by
  simp [ProcessReadings.metrics, plainMetric, Metric.name, Metric.new]

theorem signals_of_filter {s : Service σ κ} {only : List String} {m : Moment σ} {value : Float}
    (h : (s.sink only m).filter (fun o => o.name = "postgres_up") = [Scrape.up value]) :
    s.Signals only m value := by
  refine ⟨h, ?_⟩
  intro text htext
  obtain ⟨_, _, rfl⟩ := (s.exposition_eq_ok_iff _ _).mp htext
  refine ⟨_, rfl, ?_⟩
  have hfamilies : ((group (s.sink only m)).map Family.metric).filter
      (fun metric => metric.name = "postgres_up") = [signalMetric value] := by
    have hfamily := filter_group (o := Scrape.up value) h
    have hname : ((fun metric : Metric => decide (metric.name = "postgres_up")) ∘ Family.metric) =
        fun f => decide (f.name = "postgres_up") := by
      funext f
      simp
    rw [List.filter_map, hname]
    refine (congrArg (List.map Family.metric) hfamily).trans ?_
    rw [List.map_singleton, metric_up]
  have hprocess : ((s.process.map ProcessReadings.metrics).getD []).filter
      (fun metric => metric.name = "postgres_up") = [] := by
    cases s.process with
    | none => rfl
    | some readings => exact filter_metrics_process readings
  have hperm : ((Registry.gather ⟨s.rendered (s.sink only m)⟩).filter
      fun metric => metric.name = "postgres_up").Perm [signalMetric value] := by
    refine ((List.mergeSort_perm _ _).filter _).trans ?_
    rw [List.filter_comm, rendered, List.filter_append, hfamilies, hprocess]
    simp [signalMetric]
  exact List.perm_singleton.mp hperm

/-- The signal is there exactly if the first attempt to connect ends by the deadline. -/
theorem signalled_iff_of_hold {s : Service σ κ} {m : Moment σ}
    (hmakes : ∀ r ∈ s.scrapers.all, r.source.Makes fun o => o.name ≠ "postgres_up")
    (hcaches : m.world.caches.Hold fun o => o.name ≠ "postgres_up") (only : List String) :
    (s.Signalled only m ↔
        (s.gateway.connect s.target).EndsWithin s.timeout m.time m.world.server) ∧
      (¬ s.Signalled only m → s.sink only m = []) := by
  have hlaw : Scrape.Law (fun o => o.name ≠ "postgres_up")
      fun os => ∀ o ∈ os, o.name ≠ "postgres_up" := by
    refine ⟨fun h h' => List.forall_mem_append.mpr ⟨h, h'⟩, id, ?_, ?_⟩
    · simp [Scrape.info]
    · simp [Scrape.duration, Scrape.success]
  have hsignal : ∀ (value : Float) rest, (∀ o ∈ rest, o.name ≠ "postgres_up") →
      s.sink only m = Scrape.up value :: rest → s.Signals only m value := by
    intro value rest hrest hsink
    apply signals_of_filter
    rw [hsink, List.filter_cons_of_pos (by simp [Scrape.up]), List.filter_eq_nil_iff.mpr]
    simpa using hrest
  rw [← Activity.run_limit_ne_none_iff]
  change (_ ↔ (Scrape.connecting s.gateway s.target s.timeout m).value ≠ none) ∧ _
  rcases sink_lawful hlaw s only m hcaches (pushes_log hmakes only m) with
    ⟨hv, hsink⟩ | ⟨failure, hv, hsink⟩ | ⟨session, rest, hv, hopened, hsink, hrest⟩
  · have hnone : ¬ s.Signalled only m := by
      rintro (h | ⟨h, _⟩) <;> simpa [hsink] using h.returned
    exact ⟨iff_of_false hnone (not_not_intro hv), fun _ => hsink⟩
  · have hsome : s.Signalled only m := Or.inl (hsignal 0 [] (by simp) hsink)
    exact ⟨iff_of_true hsome (by simp [hv]), fun h => absurd hsome h⟩
  · have hsome : s.Signalled only m := Or.inr ⟨hsignal 1 rest hrest hsink, hopened⟩
    exact ⟨iff_of_true hsome (by simp [hv]), fun h => absurd hsome h⟩

/-- From empty caches on the signal is there exactly if the first attempt to connect ends by the
deadline, and without it nothing at all is returned. -/
theorem signalled_iff_endsWithin {s : Service σ κ}
    (hmakes : ∀ r ∈ s.scrapers.all, r.source.Makes fun o => o.name ≠ "postgres_up")
    (ops : List (Operation σ)) (time : Nat) (server : σ) (only : List String) :
    let m := s.reached ops ⟨time, ⟨server, .empty⟩⟩
    (s.Signalled only m ↔
        (s.gateway.connect s.target).EndsWithin s.timeout m.time m.world.server) ∧
      (¬ s.Signalled only m → s.sink only m = []) := by
  intro m
  exact signalled_iff_of_hold hmakes (hold_reached hmakes ops Caches.hold_empty) only

theorem makes_tardy : tardy.source.Makes fun o => o.name ≠ "postgres_up" := by
  intro session version time server o ho
  have hevents : ((tardy.source.run session version).run time server).events =
      [⟨.gauge, "m", [], 1, "help"⟩] := rfl
  rw [hevents, List.mem_singleton] at ho
  simp [ho]

def brisk : Service Rehearsal.Stage Nat where
  gateway := Rehearsal.Stage.gateway
  target := ⟨⟨"localhost", 5432, none, "postgres", none, none, .prefer, none, none⟩, "postgres"⟩
  scrapers := { global := [.direct tardy.source] }
  excluded := []
  timeout := 1000

theorem signalled_iff_endsWithin_brisk :
    (∀ r ∈ brisk.scrapers.all, r.source.Makes fun o => o.name ≠ "postgres_up") ∧
      let m := brisk.reached [] ⟨0, ⟨{ script := { connectDelay := 500 } }, .empty⟩⟩
      brisk.Signalled [] m := by
  have hmakes : ∀ r ∈ brisk.scrapers.all, r.source.Makes fun o => o.name ≠ "postgres_up" := by
    intro r hr
    rw [List.mem_singleton.mp hr]
    exact makes_tardy
  refine ⟨hmakes, ?_⟩
  refine (signalled_iff_endsWithin hmakes [] 0 _ []).1.mpr ?_
  exact Activity.EndsWithin.of_lt (by decide +kernel)

/-- A scrape of a server that takes three seconds to connect to has no signal. -/
theorem brisk_not_signalled :
    let m : Moment Rehearsal.Stage := ⟨0, ⟨{ script := { connectDelay := 3000 } }, .empty⟩⟩
    brisk.sink [] m = [] ∧ ¬ brisk.Signalled [] m := by
  intro m
  have hsink : brisk.sink [] m = [] := by rfl
  refine ⟨hsink, ?_⟩
  rintro (h | ⟨h, _⟩) <;> simpa [hsink] using h.returned

end Service

namespace Exporter

variable {σ κ : Type}

/-- An exporter gives up connecting when its own time for that is over. -/
theorem endsWithin_connect (e : Exporter) (wire : Wire σ κ)
    (h : e.configuration.connectTimeout < e.configuration.scrapeTimeout) (time : Nat)
    (server : σ) :
    ((e.service wire).gateway.connect e.target).EndsWithin (e.service wire).timeout time server := by
  apply Activity.EndsWithin.of_lt
  have hdial := (wire.dial e.target.connection).run_limit_time_le
    (e.configuration.connectTimeout * 1000) time server
  have htime : (((e.service wire).gateway.connect e.target).run time server).time =
      (((wire.dial e.target.connection).limit (e.configuration.connectTimeout * 1000)).run time
        server).time := by
    simp only [Gateway.connect, Exporter.service, Wire.gateway, Wire.dialWithin, Activity.run_bind]
    generalize ((wire.dial e.target.connection).limit _).run time server = o
    obtain ⟨t, s, es, v⟩ := o
    rcases v with _ | _ | _ <;> rfl
  rw [htime]
  simp only [Exporter.service]
  omega

end Exporter
end PgMetrics
