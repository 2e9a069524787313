import PgMetrics.Proofs.Exposition.Tally
import PgMetrics.Proofs.Scrape.Exclusive
import PgMetrics.Proofs.Scrape.Provenance
import PgMetrics.Proofs.Service.Rendering
import PgMetrics.Proofs.Service.Request
import PgMetrics.Proofs.Statistics.Rows

/-! # The lag of every standby

Every row about a standby becomes an observation of its lag, labelled with its application name, its
address and its states.  Nothing keeps two standbys from agreeing in all of these.  So there are as
many samples of the lag as there are identities of such labels, and the lags of all standbys are
exposed exactly if no two standbys have the same identity.
-/
namespace PgMetrics

open Exposition

variable {σ κ : Type}

/-- Where no cache around the source has a fresh entry, a run is a run of the source. -/
theorem Scraper.run_of_stale (s : Scraper σ κ) {session : Session κ} (version : Version)
    {m : Moment σ} (h : ∀ slot ttl inner, s.Wraps slot ttl inner →
      fresh? slot ttl m session.database = none) :
    let o := (s.run session version).run m.time m.world
    let p := (s.source.run session version).run m.time m.world.server
    Event.results o.events = p.events ∧ o.value = p.value := by
  induction s with
  | direct source =>
    dsimp only
    rw [run_direct]
    exact ⟨Event.results_ofSource _, rfl⟩
  | cached slot ttl inner ih =>
    have hstale := h slot ttl inner (.here _ _ _)
    obtain ⟨hresults, hvalue⟩ := ih fun slot' ttl' inner' hwraps => h _ _ _ (hwraps.inside slot ttl)
    dsimp only
    rw [run_cached_of_stale hstale, Event.results_append, Event.results_aside,
      Event.results_observed]
    exact ⟨hresults, hvalue⟩

namespace Statistics

/-- No other statistic declares what the first measure of standbys is called. -/
theorem name_ne_lag : ∀ e ∈ declared, e.1.name ≠ "stat_replication" →
    ∀ d ∈ e.2, d.name ≠ "postgres_stat_replication_lag_bytes" := by
  decide +kernel

namespace Replication

def lagDeclaration : Declaration where
  name := "postgres_stat_replication_lag_bytes"
  help := "Replication delay in bytes between the current WAL position and the standby " ++
    "replay position"
  kind := .gauge
  labelNames := plan.labelNames

theorem lagDeclaration_mem : lagDeclaration ∈ PgMetrics.schema := by
  have hplan : lagDeclaration ∈ plan.schema := List.mem_cons_self
  have hplans : plan ∈ plans := by simp [plans]
  exact List.mem_append_right _ (List.mem_append_right _ (List.mem_flatMap.mpr ⟨_, hplans, hplan⟩))

def law : RowLaw where
  statistic := statistic
  plan := fun _ => plan
  mandatory := some "lag_bytes"

theorem law_mem : law ∈ rowLaws := by
  simp [rowLaws, law]

def labelValues (database : String) (record : Record) : List String :=
  (plan.labelsOf database record).map Prod.snd

def lag (database : String) (record : Record) (x : Float) : Observation :=
  ⟨.gauge, lagDeclaration.name, plan.labelsOf database record, x, lagDeclaration.help⟩

theorem exists_measure {database : String} {version : Version} {record : Record} {o : Observation}
    (h : o ∈ law.observations database version record) : ∃ m ∈ measures, o.name = m.name := by
  rcases List.mem_append.mp h with hmark | hmeasure
  · exact absurd hmark List.not_mem_nil
  · obtain ⟨m, hm, ho⟩ := List.mem_flatMap.mp hmeasure
    exact ⟨m, hm, RowLaw.name_of_mem_measured ho⟩

/-- Of what becomes of a standby one observation is its lag. -/
theorem filter_observations {record : Record} {x : Float} (h : record.number "lag_bytes" = some x)
    (database : String) (version : Version) :
    ((law.observations database version record).filter fun o => o.name = lagDeclaration.name) =
      [lag database record x] := by
  have hnames : ∀ m ∈ measures.tail, m.name ≠ lagDeclaration.name := by
    simp [measures, lagDeclaration]
  let labels := plan.labelsOf database record
  have hothers : ((measures.tail.flatMap (law.measured labels record)).filter
      fun o => o.name = lagDeclaration.name) = [] := by
    rw [List.filter_eq_nil_iff]
    intro o ho heq
    obtain ⟨m, hm, ho⟩ := List.mem_flatMap.mp ho
    exact hnames m hm ((RowLaw.name_of_mem_measured ho).symm.trans (of_decide_eq_true heq))
  have hlag : ∀ m, m.column = "lag_bytes" →
      law.measured labels record m = [⟨m.kind, m.name, labels, x, m.help⟩] := by
    intro m hcolumn
    rw [RowLaw.measured, RowLaw.counted, hcolumn, h]
  change ((law.measured labels record _ ++
    measures.tail.flatMap (law.measured labels record)).filter _) = _
  rw [List.filter_append, hothers, hlag _ rfl]
  rfl

theorem filter_flatMap_observations {records : List Record} {lags : List Float}
    (h : records.map (·.number "lag_bytes") = lags.map some) (database : String)
    (version : Version) :
    ((records.flatMap (law.observations database version)).filter fun o =>
      o.name = lagDeclaration.name) =
        (records.zip lags).map fun (record, x) => lag database record x := by
  induction records generalizing lags with
  | nil => rfl
  | cons record rest ih =>
    cases lags with
    | nil => cases h
    | cons x xs =>
      obtain ⟨hnumber, hrest⟩ := List.cons_eq_cons.mp h
      rw [List.flatMap_cons, List.filter_append, filter_observations hnumber, ih hrest]
      rfl

theorem identities_lags {records : List Record} {lags : List Float} (database : String)
    (h : records.length = lags.length) :
    identities ((records.zip lags).map fun (record, x) => lag database record x) =
      records.map fun record => identity (labelValues database record) := by
  have hrecords : (records.zip lags).map Prod.fst = records := List.map_fst_zip h.le
  conv_rhs => rw [← hrecords]
  rw [identities, List.map_map, List.map_map]
  rfl

theorem values_lags {records : List Record} {lags : List Float} (database : String)
    (h : records.length = lags.length) :
    ((records.zip lags).map fun (record, x) => lag database record x).map
      (fun o => Decimal.text o.value) = lags.map Decimal.text := by
  have hlags : (records.zip lags).map Prod.snd = lags := List.map_snd_zip h.ge
  conv_rhs => rw [← hlags]
  rw [List.map_map, List.map_map]
  rfl

/-- Neither the lag of a standby nor a report about runs of that scraper. -/
def Unrelated (r : Scraper σ κ) (o : Observation) : Prop :=
  o.name ≠ lagDeclaration.name ∧ ∀ database verdict, o ≠ Scrape.success r.name database verdict

theorem unrelated_of_declared {ds : List Declaration} (hds : ∀ d ∈ ds, d ∈ schema)
    (hlag : ∀ d ∈ ds, d.name ≠ lagDeclaration.name) (r : Scraper σ κ) {o : Observation}
    (h : Declared ds o) : Unrelated r o := by
  refine ⟨hlag _ h, fun database verdict heq => name_notMem_scrape (hds _ h) ?_⟩
  rw [heq]
  exact List.mem_of_getElem? (i := 3) rfl

/-- What is called otherwise than these is unrelated. -/
theorem unrelated_of_name {o : Observation} (hlag : o.name ≠ lagDeclaration.name)
    (hsuccess : o.name ≠ "postgres_exporter_scraper_success") (r : Scraper σ κ) :
    Unrelated r o :=
  ⟨hlag, fun _ _ heq => hsuccess (congrArg Observation.name heq)⟩

theorem filter_unrelated {r : Scraper σ κ} {os : List Observation} (h : ∀ o ∈ os, Unrelated r o) :
    (os.filter fun o => o.name = lagDeclaration.name) = [] :=
  List.filter_eq_nil_iff.mpr fun o ho heq => (h o ho).1 (of_decide_eq_true heq)

/-- Among what a run is reported with, the lags are those of the standbys that the run has got. -/
theorem filter_reported {r : Scraper σ κ} {before after : List Observation}
    {records : List Record} {lags : List Float}
    (hlags : records.map (·.number "lag_bytes") = lags.map some)
    (hbefore : ∀ o ∈ before, Unrelated r o) (hafter : ∀ o ∈ after, Unrelated r o)
    (name database : String) (version : Version) (span : Nat) (verdict : Verdict) :
    ((before ++ (records.flatMap (law.observations database version) ++
        Scrape.duration name database span :: Scrape.success name database verdict :: after)).filter
          fun o => o.name = lagDeclaration.name) =
      (records.zip lags).map fun (record, x) => lag database record x := by
  have hduration : (Scrape.duration name database span).name ≠ lagDeclaration.name := by
    simp [Scrape.duration, lagDeclaration]
  have hsuccess : (Scrape.success name database verdict).name ≠ lagDeclaration.name := by
    simp [Scrape.success, lagDeclaration]
  rw [List.filter_append, filter_unrelated hbefore, List.filter_append,
    filter_flatMap_observations hlags, List.filter_cons_of_neg (by simpa using hduration),
    List.filter_cons_of_neg (by simpa using hsuccess), filter_unrelated hafter, List.nil_append,
    List.append_nil]

theorem success_notMem_observations (records : List Record) (version : Version)
    (name database database' : String) (verdict : Verdict) :
    Scrape.success name database verdict ∉
      records.flatMap (law.observations database' version) := by
  intro hmem
  obtain ⟨record, _, hmem⟩ := List.mem_flatMap.mp hmem
  obtain ⟨measure, hmeasure, heq⟩ := exists_measure hmem
  have hother : ∀ m ∈ measures, m.name ≠ "postgres_exporter_scraper_success" := by
    simp [measures]
  exact hother measure hmeasure heq.symm

end Replication
end Statistics

namespace Selection

open Statistics.Replication

/-- The scrapers of a selection have different names. -/
theorem nodup_names_scrapers (sel : Selection) (wire : Wire σ κ) :
    ((sel.scrapers wire).all.map Scraper.name).Nodup := by
  obtain ⟨es, hentries, hnumbered, hall⟩ := sel.exists_entries wire
  have hname : ∀ e : (CatalogEntry × Statistics.Statistic) × Nat,
      (sel.scraper wire e.1.1 e.1.2 e.2).name =
        if sel.isCached e.1.1.name then "cached_" ++ e.1.2.name else e.1.2.name := by
    intro e
    rw [scraper]
    split <;> rfl
  have hplain : ∀ e ∈ es, ∀ name, e.1.2.name ≠ "cached_" ++ name := by
    intro e he name heq
    refine Catalog.cached_notMem_names name ?_
    rw [← heq, ← Statistics.names_all]
    exact List.mem_map_of_mem (List.of_mem_zip (List.fst_mem_of_mem_zipIdx (hnumbered e he))).2
  rw [hall, List.map_map]
  refine List.Nodup.map_on (fun e he e' he' heq => ?_) hentries
  rw [Function.comp_apply, Function.comp_apply, hname, hname] at heq
  refine List.inj_on_of_nodup_map nodup_names (hnumbered e he) (hnumbered e' he') ?_
  split at heq <;> split at heq
  · exact (String.append_right_inj _).mp heq
  · exact absurd heq.symm (hplain e' he' _)
  · exact absurd heq (hplain e he _)
  · exact heq

variable {sel : Selection} {wire : Wire σ κ} {r : Scraper σ κ}

/-- Only the scraper of the replication makes lags of standbys. -/
theorem exclusive_lag (hr : r ∈ (sel.scrapers wire).global)
    (hname : r.baseName = "stat_replication") :
    Scrape.Exclusive (sel.scrapers wire) r (Unrelated r) where
  member := hr
  names := sel.nodup_names_scrapers wire
  slots := sel.nodup_slots_scrapers wire
  makes := by
    intro s hs hne session version time server o ho
    obtain ⟨e, he, rfl⟩ := exists_of_mem_all hs
    obtain ⟨e', he', rfl⟩ := exists_of_mem_all (List.mem_append_left _ hr)
    obtain ⟨ds, hds⟩ := Statistics.exists_declared
      (List.of_mem_zip (List.fst_mem_of_mem_zipIdx he)).2
    have hother : e.1.2.name ≠ "stat_replication" := by
      rw [Scraper.baseName, source_scraper] at hname
      intro heq
      exact hne (by rw [List.inj_on_of_nodup_map nodup_names he he' (heq.trans hname.symm)])
    have hdeclared := (Statistics.covered_of_mem _ hds).makes wire e.1.1.enabledByDefault session
      version time server
    rw [source_scraper] at ho
    exact unrelated_of_declared (Statistics.declared_subset hds)
      (Statistics.name_ne_lag _ hds hother) _ (hdeclared o ho)
  up value := unrelated_of_name (by simp [Scrape.up, lagDeclaration]) (by simp [Scrape.up]) r
  info v := unrelated_of_name (by simp [Scrape.info, lagDeclaration]) (by simp [Scrape.info]) r
  duration name database span _ := unrelated_of_name
    (by simp [Scrape.duration, lagDeclaration]) (by simp [Scrape.duration]) r
  success name database verdict hne := by
    refine ⟨by simp [Scrape.success, lagDeclaration], fun database' verdict' heq => hne ?_⟩
    have hlabels := congrArg Observation.labels heq
    simp only [Scrape.success, Scrape.runLabels, List.cons.injEq, Prod.mk.injEq] at hlabels
    exact hlabels.1.2
  reported database verdict h := h.2 database verdict rfl

end Selection

namespace Service

open Statistics

/-- A run of the scraper for the replication that gets rows about standbys. -/
theorem exists_run {sel : Selection} {wire : Wire σ κ} {r : Scraper σ κ}
    (hr : r ∈ (sel.scrapers wire).all) (hname : r.baseName = "stat_replication")
    {session : Session κ} {version : Version} {m₀ : Moment σ}
    (hstale : ∀ slot ttl inner, r.Wraps slot ttl inner →
      Scraper.fresh? slot ttl m₀ session.database = none)
    {rows : List Results.Row} {records : List Record} {lags : List Float}
    (hreply : ((wire.send session.handle (Replication.query version) []).run m₀.time
      m₀.world.server).value.all = .ok rows)
    (htells : List.Forall₂ Replication.plan.Tells rows records)
    (hlags : records.map (·.number "lag_bytes") = lags.map some) :
    ∃ verdict m₁, Scrape.Yields (r.run session version) m₀
      (records.flatMap (Replication.law.observations session.database version)) verdict m₁ := by
  obtain ⟨hresults, _⟩ := r.run_of_stale version hstale
  have hsource : r.source.run = (Replication.statistic.source wire true).run := by
    obtain ⟨e, he, rfl⟩ := Selection.exists_of_mem_all hr
    rw [Scraper.baseName, Selection.source_scraper] at hname
    rw [Selection.source_scraper]
    have hentry := List.inj_on_of_nodup_map Selection.nodup_names he
      (List.mem_of_getElem? (i := 6) rfl) hname
    rw [hentry]
  have hcomplete : records.all Replication.law.complete = true := by
    rw [List.all_eq_true]
    intro record hrecord
    have hmem : record.number "lag_bytes" ∈ lags.map some := by
      rw [← hlags]
      exact List.mem_map_of_mem (f := fun record : Record => record.number "lag_bytes") hrecord
    obtain ⟨x, _, hx⟩ := List.mem_map.mp hmem
    exact (RowLaw.complete_iff rfl).mpr (hx ▸ Option.some_ne_none x)
  let pass : Pass :=
    ⟨fun v => some (Replication.query v), fun d _ => Replication.plan.yield d⟩
  have hquery : pass.query version = some (Replication.query version) := rfl
  have hmade := run_complete Replication.law_mem rfl htells hquery hreply hcomplete
  rw [hsource] at hresults
  refine ⟨_, _, ⟨hresults.trans ?_, rfl, rfl⟩⟩
  refine (congrArg Activity.Outcome.events hmade).trans ?_
  simp [runPasses]

/-- What is exposed of the lags of standbys by a scrape that reports the run of their scraper: there
are as many samples as identities of label values, and the lags of all standbys are there exactly if
no two standbys have the same identity. -/
theorem lags_exposed_iff (sel : Selection) (wire : Wire σ κ) (gateway : Gateway σ κ)
    (target : Target) (excluded : List String) (timeout : Nat) (process : Option ProcessReadings)
    (ops : List (Operation σ)) (time : Nat) (server : σ) (only : List String) {r : Scraper σ κ}
    (hname : r.baseName = "stat_replication") {session : Session κ} {version : Version}
    {m₀ : Moment σ} {rows : List Results.Row} {records : List Record} {lags : List Float}
    {verdict : Verdict} :
    let s : Service σ κ := ⟨gateway, target, sel.scrapers wire, excluded, timeout, process⟩
    let m := s.reached ops ⟨time, ⟨server, .empty⟩⟩
    Scrape.Begins gateway target (sel.scrapers wire) excluded only r m session version m₀ →
    (∀ slot ttl inner, r.Wraps slot ttl inner →
      Scraper.fresh? slot ttl m₀ session.database = none) →
    ((wire.send session.handle (Replication.query version) []).run m₀.time
      m₀.world.server).value.all = .ok rows →
    List.Forall₂ Replication.plan.Tells rows records →
    records.map (·.number "lag_bytes") = lags.map some →
    Scrape.success r.name session.database verdict ∈ s.sink only m →
    let standbys := records.map fun record =>
      identity (Replication.labelValues session.database record)
    ∃ text es, ((s.render only).run m.time m.world).value = .ok text ∧ readText text = some es ∧
      let samples := readingsOf "postgres_stat_replication_lag_bytes" es
      samples.length = standbys.dedup.length ∧
        ((samples.map Reading.value).Perm (lags.map Decimal.text) ↔ standbys.Nodup) := by
  intro s m hbegins hstale hreply htells hlags hreported standbys
  have hmem : r ∈ (sel.scrapers wire).global := hbegins.mem
  have hmakes := sel.makes wire
  have hexclusive := Selection.exclusive_lag hmem hname
  have hcaches := holdIn_reached (s := s) hexclusive ops (m := ⟨time, ⟨server, .empty⟩⟩)
    Caches.holdIn_empty
  obtain ⟨verdict', m₁, hrun⟩ := exists_run (List.mem_append_left _ hmem) hname hstale hreply htells
    hlags
  have hpushed := Replication.success_notMem_observations records version r.name session.database
    session.database verdict
  obtain ⟨before, after, hsink, hbefore, hafter⟩ := exists_sink (s := s) hexclusive hcaches hbegins
    hrun hpushed hreported
  have hdue : ((s.sink only m).filter fun o => o.name = Replication.lagDeclaration.name) =
      (records.zip lags).map fun (record, x) => Replication.lag session.database record x := by
    rw [hsink]
    exact Replication.filter_reported hlags hbefore hafter _ _ _ _ _
  have hdeclared := declared_sink (s := s) hmakes
    (hold_reached (s := s) hmakes ops (m := ⟨time, ⟨server, .empty⟩⟩) Caches.hold_empty) only
  obtain ⟨text, htext⟩ := Schema.exists_exposition hdeclared s
  have hgauge : ∀ o ∈ s.sink only m, o.name = Replication.lagDeclaration.name →
      o.kind = .gauge ∧ o.labelNames = Replication.plan.labelNames := by
    intro o ho heq
    have hsame := eq_of_name_eq (hdeclared o ho) Replication.lagDeclaration_mem heq
    exact ⟨congrArg Declaration.kind hsame, congrArg Declaration.labelNames hsame⟩
  have hprocess : ∀ p : ProcessReadings,
      Replication.lagDeclaration.name ∉ p.metrics.map Metric.name := by
    intro p
    rw [ProcessReadings.names_metrics]
    exact name_notMem_process Replication.lagDeclaration_mem
  obtain ⟨es, hread, htally⟩ := tally_exposition htext hprocess hgauge (by decide)
  refine ⟨text, es, ?_, hread, ?_⟩
  · simpa [render, sink] using htext
  · have hlength : records.length = lags.length := by
      simpa using congrArg List.length hlags
    have hids := Replication.identities_lags session.database hlength
    have hvalues := Replication.values_lags session.database hlength
    rw [hdue, hids, hvalues] at htally
    exact htally

end Service

namespace Statistics.Replication

def streamingRow (application : String) (x : Float) : Results.Row := [
  ⟨"application_name", .text, .text application⟩, ⟨"client_addr", .inet, .null⟩,
  ⟨"state", .text, .text "streaming"⟩, ⟨"sync_state", .text, .text "async"⟩,
  ⟨"lag_bytes", .float8, .number x⟩, ⟨"write_lag_seconds", .float8, .null⟩,
  ⟨"flush_lag_seconds", .float8, .null⟩, ⟨"replay_lag_seconds", .float8, .null⟩]

def streaming (application : String) (x : Float) : Record where
  text column :=
    if column = "application_name" then some application
    else if column = "state" then some "streaming" else some "async"
  flag _ := none
  address _ := none
  number column := if column = "lag_bytes" then some x else none

theorem streamingRow_tells (application : String) (x : Float) :
    plan.Tells (streamingRow application x) (streaming application x) := by
  have htext : ∀ word : String, Results.Datum.text word ≠ .null := by simp
  have hnumber : Results.Datum.number x ≠ .null := by simp
  refine ⟨?_, fun column marks h => ?_, ?_⟩
  · simp only [plan, List.forall_mem_cons, List.not_mem_nil, false_imp_iff, implies_true, and_true]
    exact ⟨⟨_, rfl, .present (htext _) rfl rfl⟩, ⟨_, rfl, .absent rfl⟩,
      ⟨_, rfl, .present (htext _) rfl rfl⟩, ⟨_, rfl, .present (htext _) rfl rfl⟩⟩
  · cases h
  · simp only [plan, measures, List.forall_mem_cons, List.not_mem_nil, false_imp_iff, implies_true,
      and_true]
    exact ⟨⟨_, rfl, .present hnumber rfl rfl⟩, ⟨_, rfl, .absent rfl⟩, ⟨_, rfl, .absent rfl⟩,
      ⟨_, rfl, .absent rfl⟩⟩

def replicating (first second : String) : Service Unit Unit where
  gateway := {
    open_ _ := .done (.ok ())
    announcement _ := .done (.ok "16.1")
    databases _ _ := .done (.ok [])
    ping _ := .done (.ok ())
    close _ := .done (.ok ()) }
  target := ⟨⟨"localhost", 5432, none, "postgres", none, none, .prefer, none, none⟩, "postgres"⟩
  scrapers := ({ enabled := ["stat_replication"] } : Selection).scrapers
    (answering [streamingRow first 1, streamingRow second 2])
  excluded := []
  timeout := 10000

def scraperOf (first second : String) : Scraper Unit Unit :=
  .direct (statistic.source (answering [streamingRow first 1, streamingRow second 2]) true)

theorem begins_replicating (first second : String) :
    Scrape.Begins (replicating first second).gateway (replicating first second).target
      (replicating first second).scrapers [] [] (scraperOf first second) ⟨0, ⟨(), .empty⟩⟩
        ⟨"postgres", ()⟩ (Version.ofAnnouncement "16.1") ⟨0, ⟨(), .empty⟩⟩ := by
  have hselected : (replicating first second).scrapers.global.filter (Scrape.selected []) =
      [] ++ scraperOf first second :: [] := rfl
  exact .reached ⟨rfl, rfl⟩ ⟨rfl, rfl⟩ ⟨rfl, rfl⟩ hselected (.finished _)

/-- Standbys with names of their own keep their lags. -/
theorem lags_exposed_iff_named :
    ∃ text es, (((replicating "north" "south").render []).run 0 ⟨(), .empty⟩).value = .ok text ∧
      readText text = some es ∧
      ((readingsOf "postgres_stat_replication_lag_bytes" es).map Reading.value).Perm
        ["1", "2"] := by
  have hreported : Scrape.success "stat_replication" "postgres" (.ok ()) ∈
      (replicating "north" "south").sink [] ⟨0, ⟨(), .empty⟩⟩ := by
    apply List.mem_of_getElem? (i := 5)
    rfl
  have htells : List.Forall₂ plan.Tells [streamingRow "north" 1, streamingRow "south" 2]
      [streaming "north" 1, streaming "south" 2] :=
    .cons (streamingRow_tells _ _) (.cons (streamingRow_tells _ _) .nil)
  have hlags : [streaming "north" 1, streaming "south" 2].map (·.number "lag_bytes") =
      [1, 2].map some := rfl
  have hstale : ∀ slot ttl inner, (scraperOf "north" "south").Wraps slot ttl inner →
      Scraper.fresh? slot ttl (⟨0, ⟨(), .empty⟩⟩ : Moment Unit) "postgres" = none := nofun
  obtain ⟨text, es, hrender, hread, _, hvalues⟩ := Service.lags_exposed_iff
    { enabled := ["stat_replication"] } _ (replicating "north" "south").gateway
    (replicating "north" "south").target [] 10000 none [] 0 () [] rfl
    (begins_replicating "north" "south") hstale rfl htells hlags hreported
  have htexts : ["1", "2"] = [1, 2].map Decimal.text := by decide +kernel
  rw [htexts]
  exact ⟨text, es, hrender, hread, hvalues.mpr (by decide +kernel)⟩

/-- Two standbys that differ in nothing but their lags share one sample, which has the lag of the
second one. -/
theorem twins_share_sample :
    ∃ text es, (((replicating "twin" "twin").render []).run 0 ⟨(), .empty⟩).value = .ok text ∧
      readText text = some es ∧
      (readingsOf "postgres_stat_replication_lag_bytes" es).map Reading.value = ["2"] := by
  have hdeclared := Service.declared_sink (s := replicating "twin" "twin")
    (Selection.makes { enabled := ["stat_replication"] } _) (m := ⟨0, ⟨(), .empty⟩⟩)
    Caches.hold_empty []
  obtain ⟨text, hexposition⟩ := Schema.exists_exposition hdeclared (replicating "twin" "twin")
  refine ⟨text, _, ?_, Service.readText_exposition hexposition, ?_⟩
  · simpa [Service.render, Service.sink] using hexposition
  have htwins : (((replicating "twin" "twin").sink [] ⟨0, ⟨(), .empty⟩⟩).filter fun o =>
      o.name = (lag "postgres" (streaming "twin" 1) 1).name) =
        [lag "postgres" (streaming "twin" 1) 1, lag "postgres" (streaming "twin" 2) 2] := by
    rfl
  have hfamily : ⟨lag "postgres" (streaming "twin" 1) 1, [lag "postgres" (streaming "twin" 2) 2]⟩ ∈
      group ((replicating "twin" "twin").sink [] ⟨0, ⟨(), .empty⟩⟩) :=
    List.mem_of_mem_filter (filter_group htwins ▸ List.mem_singleton_self _)
  have hreadings := Service.readingsOf_exposition hexposition hfamily
  have hvalues : (Family.metric ⟨lag "postgres" (streaming "twin" 1) 1,
      [lag "postgres" (streaming "twin" 2) 2]⟩).entry.readings.map Reading.value = ["2"] := by
    decide +kernel
  rw [← hvalues, ← hreadings]
  rfl

end Statistics.Replication
end PgMetrics
