import PgMetrics.Proofs.Activity.Run
import PgMetrics.Proofs.Decimal.DivOne
import PgMetrics.Proofs.Statistics.Schema
import Mathlib.Data.List.Forall2

/-! # How rows become observations

Ten queries ask for any number of rows, each of which becomes observations on its own.  What a row
becomes depends on what its columns say, on the database and on the version: an absent text is an
empty label and an absent flag a false one, an absent number is left out or counts as zero.  Four
of the queries have one column that must have a value; there reading ends with a fault, and what the
rows before have become stays.
-/
namespace PgMetrics.Statistics

open Results

structure Record where
  text : String → Option String
  flag : String → Option Bool
  address : String → Option Net.Address
  number : String → Option Float

/-- A field has no value, or one of an accepted type that can be read. -/
inductive Says {α : Type} (reading : Reading) (value : Datum → Except DatumFault α) (f : Field) :
    Option α → Prop where
  | absent (h : f.datum = .null) : Says reading value f none
  | present {a : α} (h : f.datum ≠ .null) (htype : reading.accepts f.type = true)
      (hvalue : value f.datum = .ok a) : Says reading value f (some a)

def Column {α : Type} (reading : Reading) (value : Datum → Except DatumFault α) (row : Row)
    (column : String) (o : Option α) : Prop :=
  ∃ f, row.field column = .ok f ∧ Says reading value f o

section
variable {α : Type} {reading : Reading} {value : Datum → Except DatumFault α} {f : Field}

theorem Says.readOptional {o : Option α} (h : Says reading value f o) (place : Place) :
    f.readOptional reading value place = .ok o := by
  cases h with
  | absent h => rw [Field.readOptional, h]
  | present h htype hvalue =>
    unfold Field.readOptional
    split
    · contradiction
    · rw [if_pos htype, hvalue]

theorem Says.read_some {a : α} (h : Says reading value f (some a)) (place : Place) :
    f.read reading value place = .ok a := by
  cases h with
  | present h htype hvalue =>
    unfold Field.read
    split
    · contradiction
    · rw [if_pos htype, hvalue]
      rfl

theorem Says.read_none (h : Says reading value f none) (place : Place) :
    f.read reading value place = .error (.unreadable place .null) := by
  cases h with
  | absent h => rw [Field.read, h]

end

section
variable {row : Row} {column : String}

theorem Column.text {o : Option String} (h : Column .text Datum.text? row column o) :
    row.text column = .ok (o.getD "") := by
  obtain ⟨f, hf, hfield⟩ := h
  rw [Row.text, hf]
  dsimp only
  rw [hfield.readOptional]
  rfl

theorem Column.flag {o : Option Bool} (h : Column .flag Datum.flag? row column o) :
    row.flag column = .ok (o.getD false) := by
  obtain ⟨f, hf, hfield⟩ := h
  rw [Row.flag, hf]
  dsimp only
  rw [hfield.readOptional]
  rfl

theorem Column.address {o : Option Net.Address} (h : Column .address Datum.address? row column o) :
    row.address column = .ok ((o.map Net.Address.text).getD "") := by
  obtain ⟨f, hf, hfield⟩ := h
  rw [Row.address, hf]
  dsimp only
  rw [hfield.readOptional]
  rfl

theorem Column.number? {o : Option Float} (h : Column .number Datum.number? row column o) :
    row.number? column = .ok o := by
  obtain ⟨f, hf, hfield⟩ := h
  rw [Row.number?, hf]
  exact hfield.readOptional _

theorem Column.number_some {x : Float} (h : Column .number Datum.number? row column (some x)) :
    row.number column = .ok x := by
  obtain ⟨f, hf, hfield⟩ := h
  rw [Row.number, hf]
  exact hfield.read_some _

theorem Column.number_none (h : Column .number Datum.number? row column none) :
    row.number column = .error (.unreadable (.column column) .null) := by
  obtain ⟨f, hf, hfield⟩ := h
  rw [Row.number, hf]
  exact hfield.read_none _

end

def LabelSource.value (database : String) (record : Record) : LabelSource → String
  | .text column =>
    match record.text column with
    | some s => s
    | none => ""
  | .flag column => if record.flag column = some true then "true" else "false"
  | .address column =>
    match record.address column with
    | some a => a.text
    | none => ""
  | .database => database

def LabelSource.Tells (row : Row) (record : Record) : LabelSource → Prop
  | .text column => Column .text Datum.text? row column (record.text column)
  | .flag column => Column .flag Datum.flag? row column (record.flag column)
  | .address column => Column .address Datum.address? row column (record.address column)
  | .database => True

namespace Plan

structure Tells (p : Plan) (row : Row) (record : Record) : Prop where
  labels : ∀ label ∈ p.labels, label.2.Tells row record
  marks : ∀ column marks, p.marks = some (column, marks) →
    Column .text Datum.text? row column (record.text column)
  measures : ∀ m ∈ p.measures, Column .number Datum.number? row m.column (record.number m.column)

def labelsOf (p : Plan) (database : String) (record : Record) : List (String × String) :=
  p.labels.map fun (name, source) => (name, source.value database record)

def marksOf (p : Plan) (database : String) (record : Record) : List Observation :=
  match p.marks with
  | none => []
  | some (column, marks) =>
    let word :=
      match record.text column with
      | some s => s
      | none => ""
    (marks word).map fun (name, help) => ⟨.gauge, name, p.labelsOf database record, 1, help⟩

end Plan

theorem LabelSource.read_of_tells {database : String} {row : Row} {record : Record}
    {source : LabelSource} (h : source.Tells row record) :
    source.read database row = .ok (source.value database record) := by
  cases source with
  | text column =>
    rw [read, Column.text h, value]
    cases record.text column <;> rfl
  | flag column =>
    rw [read, Column.flag h, value]
    rcases record.flag column with _ | _ | _ <;> rfl
  | address column =>
    rw [read, Column.address h, value]
    cases record.address column <;> rfl
  | database => rfl

theorem readLabels_of_tells {database : String} {row : Row} {record : Record}
    {labels : List (String × LabelSource)} (h : ∀ label ∈ labels, label.2.Tells row record) :
    readLabels database row labels =
      .ok (labels.map fun (name, source) => (name, source.value database record)) := by
  induction labels with
  | nil => rfl
  | cons label rest ih =>
    obtain ⟨hlabel, hrest⟩ := List.forall_mem_cons.mp h
    rw [readLabels, LabelSource.read_of_tells hlabel]
    dsimp only
    rw [ih hrest]
    rfl

theorem Plan.markYield_of_tells {p : Plan} {row : Row} {record : Record} (h : p.Tells row record)
    (database : String) :
    p.markYield (p.labelsOf database record) row = ⟨p.marksOf database record, none⟩ := by
  unfold markYield marksOf
  cases hmarks : p.marks with
  | none => rfl
  | some marked =>
    obtain ⟨column, marks⟩ := marked
    dsimp only
    rw [Column.text (h.marks column marks hmarks)]
    cases record.text column <;> rfl

theorem Yield.ofList_of_sound {α : Type} {f : α → Yield} {made : α → List Observation}
    {as : List α} (h : ∀ a ∈ as, f a = ⟨made a, none⟩) : ofList f as = ⟨as.flatMap made, none⟩ := by
  induction as with
  | nil => rfl
  | cons a rest ih =>
    obtain ⟨ha, hrest⟩ := List.forall_mem_cons.mp h
    rw [ofList, ha, ih hrest]
    rfl

/-- How the rows of one query become observations. -/
structure RowLaw where
  statistic : Statistic
  /-- The place of the query among those of the statistic. -/
  index : Nat := 0
  plan : Version → Plan
  /-- The column that must have a value. -/
  mandatory : Option String := none
  /-- Whether an absent number of another column counts as zero. -/
  zeros : Bool := false

def rowLaws : List RowLaw := [
  { statistic := Locks.statistic, plan := fun _ => Locks.plan, mandatory := some "count" },
  { statistic := Connections.statistic, plan := fun _ => Connections.connections,
    mandatory := some "count" },
  { statistic := Databases.statistic, plan := fun _ => Databases.plan, zeros := true },
  { statistic := Replication.statistic, plan := fun _ => Replication.plan,
    mandatory := some "lag_bytes" },
  { statistic := WalReceiver.statistic, plan := fun _ => WalReceiver.plan,
    mandatory := some "replay_lag" },
  { statistic := VacuumProgress.statistic, plan := VacuumProgress.plan, zeros := true },
  { statistic := UserTables.statistic, plan := fun _ => UserTables.plan },
  { statistic := UserIndexes.statistic, plan := fun _ => UserIndexes.plan, zeros := true },
  { statistic := DiskUsage.statistic, plan := fun _ => DiskUsage.relations, zeros := true },
  { statistic := DiskUsage.statistic, index := 1, plan := fun _ => DiskUsage.tables,
    zeros := true }]

namespace RowLaw

/-- Whether the column that must have a value has one. -/
def complete (law : RowLaw) (record : Record) : Bool :=
  law.mandatory.all fun column => (record.number column).isSome

def counted (law : RowLaw) (record : Record) (m : Measure) : Option Float :=
  match record.number m.column with
  | some x => some x
  | none => if law.zeros then some 0 else none

def measured (law : RowLaw) (labels : List (String × String)) (record : Record) (m : Measure) :
    List Observation :=
  match law.counted record m with
  | some x => [⟨m.kind, m.name, labels, x, m.help⟩]
  | none => []

theorem name_of_mem_measured {law : RowLaw} {labels : List (String × String)} {record : Record}
    {m : Measure} {o : Observation} (h : o ∈ law.measured labels record m) : o.name = m.name := by
  unfold measured at h
  split at h
  · rw [List.mem_singleton.mp h]
  · cases h

def observations (law : RowLaw) (database : String) (version : Version) (record : Record) :
    List Observation :=
  (law.plan version).marksOf database record ++ (law.plan version).measures.flatMap
    (law.measured ((law.plan version).labelsOf database record) record)

/-- The plan reads its columns as the law says, the one that must have a value first. -/
structure Kept (law : RowLaw) : Prop where
  divisor : ∀ v, ∀ m ∈ (law.plan v).measures, m.divisor = 1
  absent : ∀ v, ∀ m ∈ (law.plan v).measures, m.absent =
    if law.mandatory = some m.column then .faulty else if law.zeros then .zero else .skipped
  first : ∀ column, law.mandatory = some column → ∀ v, (law.plan v).marks = none ∧
    ∃ m rest, (law.plan v).measures = m :: rest ∧ m.column = column

section
variable {law : RowLaw} {row : Row} {record : Record} {version : Version} {m : Measure}

theorem not_complete_iff : law.complete record = false ↔
    ∃ column, law.mandatory = some column ∧ record.number column = none := by
  unfold complete
  cases law.mandatory with
  | none => simp
  | some column => simp

theorem complete_iff {column : String} (hmandatory : law.mandatory = some column) :
    law.complete record = true ↔ record.number column ≠ none := by
  rw [complete, hmandatory, Option.all_some, Option.isSome_iff_ne_none]

theorem Kept.value? (h : law.Kept) (hm : m ∈ (law.plan version).measures)
    (htells : Column .number Datum.number? row m.column (record.number m.column))
    (hcomplete : law.complete record = true) : m.value? row = .ok (law.counted record m) := by
  have habsent := h.absent version m hm
  unfold Measure.value? counted
  by_cases hmandatory : law.mandatory = some m.column
  · rw [if_pos hmandatory] at habsent
    rw [complete, hmandatory, Option.all_some] at hcomplete
    obtain ⟨x, hx⟩ := Option.isSome_iff_exists.mp hcomplete
    rw [hx] at htells
    rw [habsent, hx, htells.number_some]
    rfl
  · rw [if_neg hmandatory] at habsent
    cases hzeros : law.zeros with
    | false =>
      rw [hzeros, if_neg Bool.false_ne_true] at habsent
      rw [habsent, htells.number?]
      cases record.number m.column <;> rfl
    | true =>
      rw [hzeros, if_pos rfl] at habsent
      rw [habsent, htells.number?]
      cases record.number m.column <;> rfl

theorem Kept.measure_yield (h : law.Kept) (hm : m ∈ (law.plan version).measures)
    (htells : Column .number Datum.number? row m.column (record.number m.column))
    (hcomplete : law.complete record = true) (labels : List (String × String)) :
    m.yield labels row = ⟨law.measured labels record m, none⟩ := by
  unfold Measure.yield measured
  rw [h.value? hm htells hcomplete]
  cases law.counted record m with
  | none => rfl
  | some x =>
    change (⟨[m.observation labels x], none⟩ : Yield) = _
    rw [Measure.observation, h.divisor version m hm, Decimal.float_div_one]

theorem Kept.rowYield (h : law.Kept) (htells : (law.plan version).Tells row record)
    (hcomplete : law.complete record = true) (database : String) :
    (law.plan version).rowYield database row =
      ⟨law.observations database version record, none⟩ := by
  unfold Plan.rowYield
  rw [readLabels_of_tells htells.labels]
  change ((law.plan version).markYield ((law.plan version).labelsOf database record) row).andThen _
    = _
  rw [Plan.markYield_of_tells htells, Yield.ofList_of_sound fun m hm =>
    h.measure_yield hm (htells.measures m hm) hcomplete _]
  rfl

theorem Kept.rowYield_incomplete (h : law.Kept) (htells : (law.plan version).Tells row record)
    {column : String} (hmandatory : law.mandatory = some column)
    (hnone : record.number column = none) (database : String) :
    (law.plan version).rowYield database row =
      .ofFault (.unreadable (.column column) .null) := by
  obtain ⟨hmarks, m, rest, hmeasures, rfl⟩ := h.first column hmandatory version
  have hm : m ∈ (law.plan version).measures := hmeasures ▸ List.mem_cons_self
  have habsent := h.absent version m hm
  rw [if_pos hmandatory] at habsent
  have hnumber := htells.measures m hm
  rw [hnone] at hnumber
  unfold Plan.rowYield
  rw [readLabels_of_tells htells.labels]
  change ((law.plan version).markYield _ row).andThen _ = _
  rw [Plan.markYield, hmarks, hmeasures, Yield.ofList]
  unfold Measure.yield Measure.value?
  rw [habsent, hnumber.number_none]
  rfl

def fault? (law : RowLaw) : Option QueryFault :=
  law.mandatory.map fun column => .unreadable (.column column) .null

theorem Kept.yield (h : law.Kept) {rows : List Row} {records : List Record}
    (htells : List.Forall₂ (law.plan version).Tells rows records) (database : String) :
    (law.plan version).yield database rows =
      ⟨(records.takeWhile law.complete).flatMap (law.observations database version),
        if records.all law.complete then none else law.fault?⟩ := by
  unfold Plan.yield
  -- along the rows, up to the first one that lacks its mandatory value
  induction htells with
  | nil => rfl
  | @cons row record rows records hrow _ ih =>
    rw [Yield.ofList]
    cases hcomplete : law.complete record with
    | true =>
      rw [h.rowYield hrow hcomplete, List.takeWhile_cons_of_pos hcomplete, List.flatMap_cons,
        List.all_cons, hcomplete, Bool.true_and, ih]
      rfl
    | false =>
      obtain ⟨column, hmandatory, hnone⟩ := not_complete_iff.mp hcomplete
      rw [h.rowYield_incomplete hrow hmandatory hnone,
        List.takeWhile_cons_of_neg (by simp [hcomplete]), List.all_cons, hcomplete, Bool.false_and,
        fault?, hmandatory]
      rfl

end

theorem kept_vacuumProgress : Kept
    { statistic := VacuumProgress.statistic, plan := VacuumProgress.plan, zeros := true } := by
  have hmeasures : ∀ m ∈ VacuumProgress.blocks ++ VacuumProgress.oldDead ++ VacuumProgress.newDead,
      m.divisor = 1 ∧ m.absent = .zero := by
    simp [VacuumProgress.blocks, VacuumProgress.oldDead, VacuumProgress.newDead]
  refine ⟨fun v m hm => ?_, fun v m hm => ?_, fun column hcolumn => ?_⟩
  · exact (hmeasures m (VacuumProgress.mem_measures hm)).1
  · exact (hmeasures m (VacuumProgress.mem_measures hm)).2
  · cases hcolumn

theorem kept_of_mem : ∀ law ∈ rowLaws, law.Kept := by
  simp only [rowLaws, List.forall_mem_cons, List.not_mem_nil, false_imp_iff, implies_true, and_true]
  refine ⟨?_, ?_, ?_, ?_, ?_, kept_vacuumProgress, ?_, ?_, ?_, ?_⟩
  all_goals
    refine ⟨fun v => ?_, fun v => ?_, fun column hcolumn v => ?_⟩
  all_goals first
    | exact ⟨rfl, _, _, rfl, Option.some.inj hcolumn⟩
    | cases hcolumn
    | simp [Locks.plan, Connections.connections, Databases.plan, Databases.measures,
        Replication.plan, Replication.measures, WalReceiver.plan, UserTables.plan,
        UserTables.measures, UserIndexes.plan, UserIndexes.measures, DiskUsage.relations,
        DiskUsage.tables, DiskUsage.plan]

/-- The query of a law reads its rows by the plan of the law. -/
theorem exists_pass : ∀ law ∈ rowLaws, ∃ query rest, law.statistic.passes.drop law.index =
    ⟨query, fun database version => (law.plan version).yield database⟩ :: rest := by
  simp only [rowLaws, List.forall_mem_cons, List.not_mem_nil, false_imp_iff, implies_true, and_true]
  refine ⟨?_, ?_, ?_, ?_, ?_, ?_, ?_, ?_, ?_, ?_⟩
  all_goals exact ⟨_, _, rfl⟩

end RowLaw

section
variable {σ κ : Type} {wire : Wire σ κ} {session : Session κ} {version : Version} {pass : Pass}
variable {sql : String} {rows : List Row} {time : Nat} {server : σ}

/-- A query that is answered with rows: what they become is left behind, and unless reading fails
the next query is asked. -/
theorem run_runPasses_cons (hquery : pass.query version = some sql)
    (hreply : ((wire.send session.handle sql []).run time server).value.all = .ok rows)
    (rest : List Pass) :
    (runPasses wire session version (pass :: rest)).run time server =
      let sent := (wire.send session.handle sql []).run time server
      let y := pass.read session.database version rows
      match y.fault with
      | some fault => ⟨sent.time, sent.state, y.made, .error fault.failure⟩
      | none =>
        let o := (runPasses wire session version rest).run sent.time sent.state
        ⟨o.time, o.state, y.made ++ o.events, o.value⟩ := by
  rw [runPasses, hquery]
  simp only [Activity.run_bind, Activity.mapEvents, Activity.run_flatMapEvents,
    Scraper.flatMap_of_empty, List.nil_append, hreply, report, Activity.run_emitAll,
    Activity.run_pure, List.append_nil]
  cases (pass.read session.database version rows).fault with
  | some fault => simp only [Activity.run_pure, List.append_nil]
  | none => rfl

section
variable {law : RowLaw} (hlaw : law ∈ rowLaws) {rest : List Pass}
  (hpass : law.statistic.passes.drop law.index = pass :: rest) {records : List Record}
  (htells : List.Forall₂ (law.plan version).Tells rows records)

include hlaw hpass htells

/-- What the query of a law reads from rows. -/
theorem read_pass (database : String) : pass.read database version rows =
    ⟨(records.takeWhile law.complete).flatMap (law.observations database version),
      if records.all law.complete then none else law.fault?⟩ := by
  obtain ⟨query, others, hdrop⟩ := RowLaw.exists_pass law hlaw
  rw [hpass] at hdrop
  obtain ⟨rfl, -⟩ := List.cons_eq_cons.mp hdrop
  exact (RowLaw.kept_of_mem law hlaw).yield htells database

/-- All rows become observations if none lacks the value that it must have. -/
theorem run_complete (hquery : pass.query version = some sql)
    (hreply : ((wire.send session.handle sql []).run time server).value.all = .ok rows)
    (hall : records.all law.complete = true) :
    let sent := (wire.send session.handle sql []).run time server
    let next := (runPasses wire session version rest).run sent.time sent.state
    (runPasses wire session version (pass :: rest)).run time server =
      ⟨next.time, next.state,
        records.flatMap (law.observations session.database version) ++ next.events,
        next.value⟩ := by
  have hrun := run_runPasses_cons hquery hreply rest
  rw [read_pass hlaw hpass htells, hall,
    List.takeWhile_eq_self_iff.mpr (List.all_eq_true.mp hall)] at hrun
  exact hrun

end

end

def answering (rows : List Row) : Wire Unit Unit where
  dial _ := .done (.ok ())
  send _ _ _ := .done ⟨rows, none⟩
  ping _ := .done (.ok ())
  close _ := .done (.ok ())

end PgMetrics.Statistics
