import PgMetrics.Scraper
import PgMetrics.Wire

/-! # Statistics read from rows

A statistic asks the server one query or more and turns each row of an answer into observations.
How it does so is a table: which columns label the observations, which column becomes which metric,
and what an absent value means.  The rows are read in order, each row's labels before its values,
and reading stops at the first fault; what has been made until then stays made.
-/
namespace PgMetrics.Statistics

open Results

/-- Observations in the order of their making, and the fault that ended it. -/
structure Yield where
  made : List Observation := []
  fault : Option QueryFault := none
  deriving Repr, BEq

namespace Yield

def empty : Yield := {}

def ofFault (f : QueryFault) : Yield := { fault := some f }

/-- One yield after another, which a fault in the first one prevents. -/
def andThen (y z : Yield) : Yield :=
  match y.fault with
  | some _ => y
  | none => ⟨y.made ++ z.made, z.fault⟩

def ofList {α : Type} (f : α → Yield) : List α → Yield
  | [] => empty
  | a :: rest => (f a).andThen (ofList f rest)

def ofExcept {α : Type} (e : Except QueryFault α) (next : α → Yield) : Yield :=
  match e with
  | .ok a => next a
  | .error f => ofFault f

end Yield

inductive LabelSource where
  | text (column : String)
  | flag (column : String)
  | address (column : String)
  | database
  deriving Repr, DecidableEq

def flagText (b : Bool) : String := if b then "true" else "false"

def LabelSource.read (database : String) (row : Row) : LabelSource → Except QueryFault String
  | .text column => row.text column
  | .flag column => (row.flag column).map flagText
  | .address column => row.address column
  | .database => .ok database

def readLabels (database : String) (row : Row) :
    List (String × LabelSource) → Except QueryFault (List (String × String))
  | [] => .ok []
  | (name, source) :: rest =>
    match source.read database row with
    | .error fault => .error fault
    | .ok value =>
      match readLabels database row rest with
      | .error fault => .error fault
      | .ok labels => .ok ((name, value) :: labels)

inductive Absent where
  | faulty
  | skipped
  | zero
  deriving Repr, DecidableEq

structure Measure where
  column : String
  kind : Kind
  name : String
  help : String
  absent : Absent
  divisor : Float := 1
  deriving Repr

namespace Measure

def observation (m : Measure) (labels : List (String × String)) (x : Float) : Observation :=
  ⟨m.kind, m.name, labels, x / m.divisor, m.help⟩

def value? (m : Measure) (row : Row) : Except QueryFault (Option Float) :=
  match m.absent with
  | .faulty => (row.number m.column).map some
  | .skipped => row.number? m.column
  | .zero => (row.number? m.column).map fun x => some (x.getD 0)

def yield (m : Measure) (labels : List (String × String)) (row : Row) : Yield :=
  Yield.ofExcept (m.value? row) fun x => ⟨(x.map (m.observation labels)).toList, none⟩

end Measure

/-- Metrics that are one for a row: what they are called and mean. -/
abbrev Marks := List (String × String)

/-- How the rows of an answer become observations. -/
structure Plan where
  labels : List (String × LabelSource) := []
  /-- A text column read after the labels that decides on metrics that are one. -/
  marks : Option (String × (String → Marks)) := none
  measures : List Measure

namespace Plan

def markYield (p : Plan) (labels : List (String × String)) (row : Row) : Yield :=
  match p.marks with
  | none => .empty
  | some (column, marks) =>
    Yield.ofExcept (row.text column) fun word =>
      ⟨(marks word).map fun (name, help) => ⟨.gauge, name, labels, 1, help⟩, none⟩

def rowYield (p : Plan) (database : String) (row : Row) : Yield :=
  Yield.ofExcept (readLabels database row p.labels) fun labels =>
    (p.markYield labels row).andThen (Yield.ofList (fun m => m.yield labels row) p.measures)

def yield (p : Plan) (database : String) (rows : List Row) : Yield :=
  Yield.ofList (p.rowYield database) rows

def firstYield (p : Plan) (database : String) (rows : List Row) : Yield :=
  match rows with
  | [] => .ofFault .noRow
  | row :: _ => p.rowYield database row

end Plan

/-- A query, unless the server is too old for it, and the reading of its answer. -/
structure Pass where
  query : Version → Option String
  read : (database : String) → Version → List Row → Yield

structure Statistic where
  name : String
  passes : List Pass

variable {σ κ : Type}

def report (y : Yield) : Activity σ Observation (Option QueryFault) := do
  .emitAll y.made
  return y.fault

def runPasses (wire : Wire σ κ) (session : Session κ) (version : Version) :
    List Pass → Activity σ Observation Verdict
  | [] => return .ok ()
  | p :: rest =>
    match p.query version with
    | none => return .ok ()
    | some sql => do
      let reply ← (wire.send session.handle sql []).mapEvents fun e => nomatch e
      match reply.all with
      | .error fault => return .error fault.failure
      | .ok rows =>
        match ← report (p.read session.database version rows) with
        | some fault => return .error fault.failure
        | none => runPasses wire session version rest

def Statistic.source (s : Statistic) (wire : Wire σ κ) (enabledByDefault : Bool) :
    Source σ κ where
  name := s.name
  enabledByDefault := enabledByDefault
  run session version := runPasses wire session version s.passes

end PgMetrics.Statistics
