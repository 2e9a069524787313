import PgMetrics.Exposition.Declaration
import PgMetrics.Process
import PgMetrics.Proofs.Scrape.Contents
import PgMetrics.Selection
import Mathlib.Data.List.Nodup

/-! # What is declared

Everything that a scrape can observe is declared in one schema: the reports of the scrape itself and
the columns and marks of the statistics, those of all server versions.  Every declaration is legal
and no name is declared twice, also not by the metrics of the process; and whatever rows a server
sends, a statistic makes nothing that is not declared.
-/
namespace PgMetrics

open Exposition

def Observation.declaration (o : Observation) : Declaration :=
  ⟨o.name, o.help, o.kind, o.labelNames⟩

def Scrape.schema : List Declaration :=
  [(up 0).declaration, (info .zero).declaration, (duration "" "" 0).declaration,
    (success "" "" (.ok ())).declaration]

def ProcessReadings.names : List String := ({} : ProcessReadings).metrics.map Metric.name

theorem ProcessReadings.names_metrics (r : ProcessReadings) :
    r.metrics.map Metric.name = names := rfl

namespace Statistics

def Measure.declaration (m : Measure) (labelNames : List String) : Declaration :=
  ⟨m.name, m.help, m.kind, labelNames⟩

def Plan.labelNames (p : Plan) : List String := p.labels.map Prod.fst

def Plan.schema (p : Plan) : List Declaration :=
  p.measures.map fun m => m.declaration p.labelNames

def Plan.declareMark (p : Plan) (mark : String × String) : Declaration :=
  ⟨mark.1, mark.2, .gauge, p.labelNames⟩

def VacuumProgress.allMarks : Marks :=
  ("postgres_stat_vacuum_progress_running", "VACUUM is running") ::
    ["initializing", "scanning heap", "vacuuming indexes", "vacuuming heap", "cleaning up indexes",
      "truncating heap", "performing final cleanup"].filterMap phaseMetric?

def plans : List Plan := [
  Locks.plan, Connections.connections, Connections.oldest, BackgroundWriter.plan, Databases.plan,
  Replication.plan, WalReceiver.plan, UserTables.plan, UserIndexes.plan, DiskUsage.relations,
  DiskUsage.tables]

def schema : List Declaration :=
  [(Recovery.observation true).declaration] ++
    [Archiver.archived, Archiver.failed, Archiver.statsReset].map (·.declaration []) ++
    VacuumProgress.allMarks.map (VacuumProgress.plan .zero).declareMark ++
    (VacuumProgress.blocks ++ VacuumProgress.oldDead ++ VacuumProgress.newDead).map
      (·.declaration (VacuumProgress.plan .zero).labelNames) ++
    plans.flatMap Plan.schema

end Statistics

def schema : List Declaration := Scrape.schema ++ Statistics.schema

inductive Spelled : List String → List (List Char) → Prop where
  | nil : Spelled [] []
  | cons (cs : List Char) {texts : List String} {spellings : List (List Char)} :
      Spelled texts spellings → Spelled (String.ofList cs :: texts) (cs :: spellings)

def numeral (cs : List Char) : Nat := cs.foldl (fun n c => 256 * n + c.toNat) 0

namespace Spelled

variable {texts : List String} {spellings : List (List Char)}

theorem eq_map (h : Spelled texts spellings) : texts = spellings.map String.ofList := by
  induction h with
  | nil => rfl
  | cons cs _ ih => rw [ih, List.map_cons]

theorem nodup (h : Spelled texts spellings) (hnumerals : (spellings.map numeral).Nodup) :
    texts.Nodup := by
  rw [h.eq_map]
  exact (List.Nodup.of_map _ hnumerals).map fun _ _ heq => String.ofList_injective heq

theorem isMetricName (h : Spelled texts spellings)
    (hspellings : ∀ cs ∈ spellings, isName (· == ':') cs) : ∀ t ∈ texts, isMetricName t := by
  rw [h.eq_map]
  intro t ht
  obtain ⟨cs, hcs, rfl⟩ := List.mem_map.mp ht
  rw [Exposition.isMetricName, String.toList_ofList]
  exact hspellings cs hcs

end Spelled

theorem spelled_names :
    ∃ spellings, Spelled (schema.map Declaration.name ++ ProcessReadings.names) spellings ∧
      (∀ cs ∈ spellings, isName (· == ':') cs) ∧ (spellings.map numeral).Nodup := by
  apply Exists.intro
  apply And.intro
  · repeat first | exact Spelled.nil | apply Spelled.cons
  · exact ⟨by decide +kernel, by decide +kernel⟩

theorem nodup_names : (schema.map Declaration.name ++ ProcessReadings.names).Nodup := by
  obtain ⟨_, hspelled, _, hnumerals⟩ := spelled_names
  exact hspelled.nodup hnumerals

theorem help_ne_empty : ∀ d ∈ schema, d.help ≠ "" := by decide +kernel

theorem labelFault?_eq_none : ∀ d ∈ schema, labelFault? [] d.labelNames = none := by
  decide +kernel

/-- Everything that is declared may be exposed. -/
theorem fault?_eq_none {d : Declaration} (h : d ∈ schema) : d.fault? = none := by
  obtain ⟨_, hspelled, hnames, _⟩ := spelled_names
  have hname : isMetricName d.name :=
    hspelled.isMetricName hnames _ (List.mem_append_left _ (List.mem_map_of_mem h))
  simp [Declaration.fault?, help_ne_empty d h, hname, labelFault?_eq_none d h]

/-- A name has one declaration. -/
theorem eq_of_name_eq {d d' : Declaration} (h : d ∈ schema) (h' : d' ∈ schema)
    (hname : d.name = d'.name) : d = d' :=
  List.inj_on_of_nodup_map (List.nodup_append.mp nodup_names).1 h h' hname

theorem name_notMem_process {d : Declaration} (h : d ∈ schema) :
    d.name ∉ ProcessReadings.names := by
  intro hmem
  exact (List.nodup_append.mp nodup_names).2.2 _ (List.mem_map_of_mem h) _ hmem rfl

namespace Statistics

def Yield.All (P : Observation → Prop) (y : Yield) : Prop := ∀ o ∈ y.made, P o

namespace Yield.All

variable {P : Observation → Prop} {α : Type}

theorem ofFault (f : Results.QueryFault) : (Yield.ofFault f).All P := by
  intro o ho
  cases ho

theorem andThen {y z : Yield} (hy : y.All P) (hz : z.All P) : (y.andThen z).All P := by
  unfold Yield.andThen
  split
  · exact hy
  · exact List.forall_mem_append.mpr ⟨hy, hz⟩

theorem ofList {f : α → Yield} {as : List α} (h : ∀ a ∈ as, (f a).All P) :
    (Yield.ofList f as).All P := by
  induction as with
  | nil =>
    intro o ho
    cases ho
  | cons a rest ih =>
    rw [List.forall_mem_cons] at h
    exact h.1.andThen (ih h.2)

theorem ofExcept {e : Except Results.QueryFault α} {next : α → Yield}
    (h : ∀ a, e = .ok a → (next a).All P) : (Yield.ofExcept e next).All P := by
  cases e with
  | error fault => exact ofFault fault
  | ok a => exact h a rfl

end Yield.All

theorem names_readLabels {database : String} {row : Results.Row}
    {sources : List (String × LabelSource)} {labels : List (String × String)}
    (h : readLabels database row sources = .ok labels) :
    labels.map Prod.fst = sources.map Prod.fst := by
  induction sources generalizing labels with
  | nil =>
    cases h
    rfl
  | cons source rest ih =>
    simp only [readLabels] at h
    split at h
    · cases h
    · split at h
      · cases h
      · rename_i later hlater
        cases h
        rw [List.map_cons, List.map_cons, ih hlater]

theorem Measure.all_yield {P : Observation → Prop} (m : Measure) (labels : List (String × String))
    (row : Results.Row) (h : ∀ x, P (m.observation labels x)) : (m.yield labels row).All P := by
  refine .ofExcept fun x _ => ?_
  intro o ho
  obtain ⟨y, _, rfl⟩ := Option.map_eq_some_iff.mp (Option.mem_toList.mp ho)
  exact h y

def Declared (ds : List Declaration) (o : Observation) : Prop := o.declaration ∈ ds

/-- A list declares all that a plan can make. -/
structure Plan.Covered (p : Plan) (ds : List Declaration) : Prop where
  measures : ∀ d ∈ p.schema, d ∈ ds
  marks : ∀ column marks, p.marks = some (column, marks) →
    ∀ word, ∀ mark ∈ marks word, p.declareMark mark ∈ ds

namespace Plan.Covered

variable {p : Plan} {ds : List Declaration} (h : p.Covered ds)

include h in
theorem rowYield (database : String) (row : Results.Row) :
    (p.rowYield database row).All (Declared ds) := by
  refine .ofExcept fun labels hlabels => .andThen ?_ (.ofList fun m hm => ?_)
  · have hnames : labels.map Prod.fst = p.labelNames := names_readLabels hlabels
    unfold Plan.markYield
    cases hmarks : p.marks with
    | none =>
      intro o ho
      cases ho
    | some marked =>
      refine .ofExcept fun word _ => ?_
      intro o ho
      obtain ⟨mark, hmark, rfl⟩ := List.mem_map.mp ho
      have hmem := h.marks _ _ hmarks word mark hmark
      rwa [Plan.declareMark, ← hnames] at hmem
  · have hnames : labels.map Prod.fst = p.labelNames := names_readLabels hlabels
    refine m.all_yield labels row fun x => ?_
    have hmem := h.measures _ (List.mem_map_of_mem hm)
    rwa [Measure.declaration, ← hnames] at hmem

include h in
theorem yield (database : String) (rows : List Results.Row) :
    (p.yield database rows).All (Declared ds) :=
  .ofList fun row _ => h.rowYield database row

include h in
theorem firstYield (database : String) (rows : List Results.Row) :
    (p.firstYield database rows).All (Declared ds) := by
  cases rows with
  | nil => exact .ofFault _
  | cons row _ => exact h.rowYield database row

end Plan.Covered

/-- A list declares all that a statistic can make, of every version and of all rows. -/
def Statistic.Covered (s : Statistic) (ds : List Declaration) : Prop :=
  ∀ p ∈ s.passes, ∀ database version rows, (p.read database version rows).All (Declared ds)

def declared : List (Statistic × List Declaration) := [
  (Recovery.statistic, [(Recovery.observation true).declaration]),
  (Locks.statistic, Locks.plan.schema),
  (Connections.statistic, Connections.connections.schema ++ Connections.oldest.schema),
  (Archiver.statistic,
    [Archiver.archived, Archiver.failed, Archiver.statsReset].map (·.declaration [])),
  (BackgroundWriter.statistic, BackgroundWriter.plan.schema),
  (Databases.statistic, Databases.plan.schema),
  (Replication.statistic, Replication.plan.schema),
  (WalReceiver.statistic, WalReceiver.plan.schema),
  (VacuumProgress.statistic,
    VacuumProgress.allMarks.map (VacuumProgress.plan .zero).declareMark ++
      (VacuumProgress.blocks ++ VacuumProgress.oldDead ++ VacuumProgress.newDead).map
        (·.declaration (VacuumProgress.plan .zero).labelNames)),
  (UserTables.statistic, UserTables.plan.schema),
  (UserIndexes.statistic, UserIndexes.plan.schema),
  (DiskUsage.statistic, DiskUsage.relations.schema ++ DiskUsage.tables.schema)]

theorem map_fst_declared : declared.map Prod.fst = all := rfl

theorem declared_subset {e : Statistic × List Declaration} (he : e ∈ declared) :
    ∀ d ∈ e.2, d ∈ schema := by
  have hplan : ∀ p ∈ plans, ∀ d ∈ p.schema, d ∈ schema := fun p hp d hd =>
    List.mem_append_right _ (List.mem_flatMap.mpr ⟨p, hp, hd⟩)
  have hplans : ∀ p ∈ plans, ∀ p' ∈ plans, ∀ d ∈ p.schema ++ p'.schema, d ∈ schema :=
    fun p hp p' hp' d hd => (List.mem_append.mp hd).elim (hplan p hp d) (hplan p' hp' d)
  simp only [declared, List.mem_cons, List.not_mem_nil, or_false] at he
  rcases he with rfl | rfl | rfl | rfl | rfl | rfl | rfl | rfl | rfl | rfl | rfl | rfl
  · exact fun d hd => by simp only [schema, List.mem_append, hd, true_or]
  · exact hplan _ (by simp [plans])
  · exact hplans _ (by simp [plans]) _ (by simp [plans])
  · exact fun d hd => by simp only [schema, List.mem_append, hd, true_or, or_true]
  · exact hplan _ (by simp [plans])
  · exact hplan _ (by simp [plans])
  · exact hplan _ (by simp [plans])
  · exact hplan _ (by simp [plans])
  · intro d hd
    rw [List.mem_append] at hd
    simp only [schema, List.mem_append]
    exact Or.inl (hd.imp_left Or.inr)
  · exact hplan _ (by simp [plans])
  · exact hplan _ (by simp [plans])
  · exact hplans _ (by simp [plans]) _ (by simp [plans])

theorem covered_of_marks {p : Plan} (h : p.marks = none) {ds : List Declaration}
    (hds : ∀ d ∈ p.schema, d ∈ ds) : p.Covered ds := by
  refine ⟨hds, fun column marks hsome => ?_⟩
  rw [h] at hsome
  cases hsome

theorem VacuumProgress.mem_allMarks {phase : String} {mark : String × String}
    (h : mark ∈ marks phase) : mark ∈ allMarks := by
  rcases List.mem_cons.mp h with rfl | h
  · exact List.mem_cons_self
  · have hsome : phaseMetric? phase = some mark := Option.mem_toList.mp h
    refine List.mem_cons_of_mem _ (List.mem_filterMap.mpr ⟨phase, ?_, hsome⟩)
    unfold phaseMetric? at hsome
    split at hsome <;> simp at hsome ⊢

/-- The measures of all versions. -/
theorem VacuumProgress.mem_measures {v : Version} {m : Measure} (h : m ∈ (plan v).measures) :
    m ∈ blocks ++ oldDead ++ newDead := by
  simp only [plan, List.mem_append] at h ⊢
  split at h
  · exact h.elim (fun h => Or.inl (Or.inl h)) Or.inr
  · exact Or.inl h

theorem VacuumProgress.covered (v : Version) : (plan v).Covered
    (allMarks.map (plan .zero).declareMark ++
      (blocks ++ oldDead ++ newDead).map (·.declaration (plan .zero).labelNames)) := by
  constructor
  · intro d hd
    obtain ⟨m, hm, rfl⟩ := List.mem_map.mp hd
    exact List.mem_append_right _ (List.mem_map.mpr ⟨m, mem_measures hm, rfl⟩)
  · rintro column _ ⟨⟩ word mark hmark
    exact List.mem_append_left _ (List.mem_map_of_mem (mem_allMarks hmark))

theorem Recovery.all_read (rows : List Results.Row) :
    (read rows).All (Declared [(observation true).declaration]) := by
  cases rows with
  | nil => exact .ofFault _
  | cons row _ =>
    refine .ofExcept fun b _ => ?_
    intro o ho
    rw [List.mem_singleton.mp ho]
    exact List.mem_singleton_self _

theorem Archiver.all_read (rows : List Results.Row) :
    (read rows).All (Declared ([archived, failed, statsReset].map (·.declaration []))) := by
  have hmem : ∀ m ∈ [archived, failed, statsReset], ∀ x,
      Declared ([archived, failed, statsReset].map (·.declaration [])) (m.observation [] x) := by
    intro m hm x
    exact List.mem_map_of_mem (f := (Measure.declaration · [])) hm
  cases rows with
  | nil => exact .ofFault _
  | cons row _ =>
    refine .ofExcept fun a _ => .ofExcept fun f _ => .andThen ?_ ?_
    · intro o ho
      rcases List.mem_pair.mp ho with rfl | rfl
      · exact hmem archived (by simp) a
      · exact hmem failed (by simp) f
    · exact statsReset.all_yield [] row (hmem statsReset (by simp))

/-- All statistics make only what they declare. -/
theorem covered_of_mem : ∀ e ∈ declared, e.1.Covered e.2 := by
  have hall : ∀ (p : Plan) {ds : List Declaration}, p.marks = none → (∀ d ∈ p.schema, d ∈ ds) →
      ∀ d rows, (p.yield d rows).All (Declared ds) := fun p _ hmarks hds d rows =>
    (covered_of_marks hmarks hds).yield d rows
  have hfirst : ∀ (p : Plan) {ds : List Declaration}, p.marks = none → (∀ d ∈ p.schema, d ∈ ds) →
      ∀ d rows, (p.firstYield d rows).All (Declared ds) := fun p _ hmarks hds d rows =>
    (covered_of_marks hmarks hds).firstYield d rows
  simp only [declared, List.forall_mem_cons, Statistic.Covered, Recovery.statistic, Locks.statistic,
    Connections.statistic, Archiver.statistic, BackgroundWriter.statistic, Databases.statistic,
    Replication.statistic, WalReceiver.statistic, VacuumProgress.statistic, UserTables.statistic,
    UserIndexes.statistic, DiskUsage.statistic, List.not_mem_nil, false_imp_iff, implies_true,
    and_true]
  exact ⟨fun _ _ rows => Recovery.all_read rows, fun d _ => hall _ rfl (fun _ => id) d,
    ⟨fun d _ => hall _ rfl (fun _ => List.mem_append_left _) d,
      fun d _ => hfirst _ rfl (fun _ => List.mem_append_right _) d⟩,
    fun _ _ rows => Archiver.all_read rows, fun d _ => hfirst _ rfl (fun _ => id) d,
    fun d _ => hall _ rfl (fun _ => id) d, fun d _ => hall _ rfl (fun _ => id) d,
    fun d _ => hall _ rfl (fun _ => id) d, fun d v rows => (VacuumProgress.covered v).yield d rows,
    fun d _ => hall _ rfl (fun _ => id) d, fun d _ => hall _ rfl (fun _ => id) d,
    ⟨fun d _ => hall _ rfl (fun _ => List.mem_append_left _) d,
      fun d _ => hall _ rfl (fun _ => List.mem_append_right _) d⟩⟩

theorem exists_declared {s : Statistic} (hs : s ∈ all) : ∃ ds, (s, ds) ∈ declared := by
  rw [← map_fst_declared] at hs
  obtain ⟨⟨_, ds⟩, he, rfl⟩ := List.mem_map.mp hs
  exact ⟨ds, he⟩

/-- All statistics are covered by the schema. -/
theorem covered_all : ∀ s ∈ all, s.Covered schema := by
  intro s hs p hp database version rows o ho
  obtain ⟨ds, he⟩ := exists_declared hs
  exact declared_subset he _ (covered_of_mem _ he p hp database version rows o ho)

variable {σ κ : Type}

theorem events_runPasses {P : Observation → Prop} {passes : List Pass}
    (h : ∀ p ∈ passes, ∀ database version rows, (p.read database version rows).All P)
    (wire : Wire σ κ) (session : Session κ) (version : Version) (time : Nat) (server : σ) :
    ∀ o ∈ ((runPasses wire session version passes).run time server).events, P o := by
  induction passes generalizing time server with
  | nil => simp [runPasses]
  | cons p rest ih =>
    rw [List.forall_mem_cons] at h
    simp only [runPasses]
    cases p.query version with
    | none => simp
    | some sql =>
      simp only [Activity.run_bind, Activity.mapEvents, Activity.run_flatMapEvents,
        Scraper.flatMap_of_empty, List.nil_append]
      generalize (wire.send session.handle sql []).run time server = sent
      cases sent.value.all with
      | error fault => simp
      | ok rows =>
        have hmade := h.1 session.database version rows
        simp only [report, Activity.run_bind, Activity.run_emitAll, Activity.run_pure,
          List.append_nil]
        rw [List.forall_mem_append]
        refine ⟨hmade, ?_⟩
        cases (p.read session.database version rows).fault with
        | some fault => simp
        | none => exact ih h.2 _ _

theorem Statistic.Covered.makes {s : Statistic} {ds : List Declaration} (h : s.Covered ds)
    (wire : Wire σ κ) (enabledByDefault : Bool) :
    (s.source wire enabledByDefault).Makes (Declared ds) := by
  intro session version time server
  exact events_runPasses h wire session version time server

end Statistics

theorem Selection.source_scraper {σ κ : Type} (sel : Selection) (wire : Wire σ κ)
    (entry : CatalogEntry) (statistic : Statistics.Statistic) (slot : Nat) :
    (sel.scraper wire entry statistic slot).source =
      statistic.source wire entry.enabledByDefault := by
  unfold scraper
  split <;> rfl

/-- Whatever is selected makes only what is declared. -/
theorem Selection.makes {σ κ : Type} (sel : Selection) (wire : Wire σ κ) :
    ∀ r ∈ (sel.scrapers wire).all, r.source.Makes (Statistics.Declared Statistics.schema) := by
  intro r hr
  obtain ⟨e, he, rfl⟩ := exists_of_mem_all hr
  have hmem : e.1.2 ∈ Statistics.all := (List.of_mem_zip (List.fst_mem_of_mem_zipIdx he)).2
  rw [source_scraper]
  exact (Statistics.covered_all _ hmem).makes wire _

end PgMetrics
