import PgMetrics.Failure
import PgMetrics.Results.Datum

/-! # Rows of query results

A row is read by column name, or by place where a query has one column only.  An optional reading
takes an absent value as nothing, whatever the type of its column; any other value has to be of an
accepted type.
-/
namespace PgMetrics.Results

structure Field where
  column : String
  type : ColumnType
  datum : Datum
  deriving Repr, BEq

abbrev Row := List Field

inductive Place where
  | column (name : String)
  | index (i : Nat)
  deriving Repr, DecidableEq

def Place.text : Place → String
  | .column name => "\"" ++ name ++ "\""
  | .index i => toString i

inductive QueryFault where
  | refused (message : String)
  | broken (message : String)
  /-- The connection cannot be encrypted. -/
  | insecure (message : String)
  | noRow
  | noColumn (name : String)
  | noIndex (index size : Nat)
  | unreadable (place : Place) (fault : DatumFault)
  deriving Repr, DecidableEq

def QueryFault.failure : QueryFault → Failure
  | .refused message => ⟨s!"error returned from database: {message}", [message]⟩
  | .broken message => ⟨s!"error communicating with database: {message}", [message]⟩
  | .insecure message =>
    ⟨s!"error occurred while attempting to establish a TLS connection: {message}", [message]⟩
  | .noRow => ⟨"no rows returned by a query that expected to return at least one row", []⟩
  | .noColumn name => ⟨s!"no column found for name: {name}", []⟩
  | .noIndex index size =>
    ⟨s!"column index out of bounds: the len is {size}, but the index is {index}", []⟩
  | .unreadable place fault =>
    ⟨"error occurred while decoding column " ++ place.text ++ ": " ++ fault.message,
      [fault.message]⟩

def Field.read {α : Type} (reading : Reading) (value : Datum → Except DatumFault α) (place : Place)
    (f : Field) : Except QueryFault α :=
  match f.datum with
  | .null => .error (.unreadable place .null)
  | d =>
    if reading.accepts f.type then (value d).mapError (.unreadable place)
    else .error (.unreadable place (.mismatch reading false f.type))

def Field.readOptional {α : Type} (reading : Reading) (value : Datum → Except DatumFault α)
    (place : Place) (f : Field) : Except QueryFault (Option α) :=
  match f.datum with
  | .null => .ok none
  | d =>
    if reading.accepts f.type then
      match value d with
      | .ok a => .ok (some a)
      | .error fault => .error (.unreadable place fault)
    else .error (.unreadable place (.mismatch reading true f.type))

namespace Row

/-- The field of a column; of several columns of one name the last one counts. -/
def field (r : Row) (column : String) : Except QueryFault Field :=
  match r.reverse.find? (·.column == column) with
  | some f => .ok f
  | none => .error (.noColumn column)

def number (r : Row) (column : String) : Except QueryFault Float :=
  match r.field column with
  | .ok f => f.read .number Datum.number? (.column column)
  | .error fault => .error fault

def number? (r : Row) (column : String) : Except QueryFault (Option Float) :=
  match r.field column with
  | .ok f => f.readOptional .number Datum.number? (.column column)
  | .error fault => .error fault

def text (r : Row) (column : String) : Except QueryFault String :=
  match r.field column with
  | .ok f => (f.readOptional .text Datum.text? (.column column)).map (·.getD "")
  | .error fault => .error fault

def flag (r : Row) (column : String) : Except QueryFault Bool :=
  match r.field column with
  | .ok f => (f.readOptional .flag Datum.flag? (.column column)).map (·.getD false)
  | .error fault => .error fault

def address (r : Row) (column : String) : Except QueryFault String :=
  match r.field column with
  | .ok f => (f.readOptional .address Datum.address? (.column column)).map fun a =>
    (a.map Net.Address.text).getD ""
  | .error fault => .error fault

/-- The only field of a row, or the first. -/
def first (r : Row) : Except QueryFault Field :=
  match r with
  | f :: _ => .ok f
  | [] => .error (.noIndex 0 0)

def firstText (r : Row) : Except QueryFault String :=
  match r.first with
  | .ok f => f.read .text Datum.text? (.index 0)
  | .error fault => .error fault

def firstFlag (r : Row) : Except QueryFault Bool :=
  match r.first with
  | .ok f => f.read .flag Datum.flag? (.index 0)
  | .error fault => .error fault

end Row
end PgMetrics.Results
