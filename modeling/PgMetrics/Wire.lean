import PgMetrics.Gateway
import PgMetrics.Results.Row

/-! # Speaking to a server

A `Wire` is what the protocol between client and server offers: log in, send a query and receive
rows, ask for a sign of life, say goodbye.  `Wire.gateway` makes of it what a scrape needs: a time
limit for logging in, the server's announcement and the list of its databases.
-/
namespace PgMetrics

open Results

/-- The rows of an answer, and the fault after them if the query failed in the end. -/
structure Reply where
  rows : List Row := []
  fault : Option QueryFault := none
  deriving Repr, BEq

namespace Reply

def all (r : Reply) : Except QueryFault (List Row) :=
  match r.fault with
  | some fault => .error fault
  | none => .ok r.rows

def one (r : Reply) : Except QueryFault Row :=
  match r.fault, r.rows with
  | some fault, _ => .error fault
  | none, [] => .error .noRow
  | none, row :: _ => .ok row

def textsFrom (fault : Option QueryFault) : List Row → Except QueryFault (List String)
  | [] =>
    match fault with
    | some fault => .error fault
    | none => .ok []
  | row :: rest =>
    match row.firstText, textsFrom fault rest with
    | .error fault, _ => .error fault
    | .ok _, .error fault => .error fault
    | .ok text, .ok texts => .ok (text :: texts)

def texts (r : Reply) : Except QueryFault (List String) := textsFrom r.fault r.rows

end Reply

/-- What the protocol offers; the parameters of a query are lists of texts. -/
structure Wire (σ κ : Type) where
  dial : DataSource → Activity σ Empty (Except QueryFault κ)
  send : κ → String → List (List String) → Activity σ Empty Reply
  ping : κ → Activity σ Empty (Except QueryFault Unit)
  close : κ → Activity σ Empty (Except QueryFault Unit)

namespace Wire

variable {σ κ : Type}

def announcementQuery : String := "SELECT current_setting('server_version')"

/-- Databases that accept connections and are no templates, without those of the parameter. -/
def databasesQuery : String :=
  "SELECT datname FROM pg_database " ++
    "WHERE datallowconn AND NOT datistemplate AND datname::text <> ALL($1) " ++
    "ORDER BY datname"

def failing {α : Type} (a : Activity σ Empty (Except QueryFault α)) : Query σ α :=
  a.bind fun r => .done (r.mapError QueryFault.failure)

def lateFailure (database : String) (timeout : Nat) : Failure :=
  ⟨s!"connecting to database {database} timed out after {timeout / 1000}s", []⟩

/-- Opens a connection within so many milliseconds. -/
def dialWithin (w : Wire σ κ) (timeout : Nat) (target : Target) :
    Activity σ Empty (Except Failure κ) := do
  match ← (w.dial target.connection).limit timeout with
  | none => return .error (lateFailure target.database timeout)
  | some (.ok handle) => return .ok handle
  | some (.error fault) =>
    return .error (fault.failure.under s!"Failed to connect to database {target.database}")

def gateway (w : Wire σ κ) (timeout : Nat) : Gateway σ κ where
  open_ target := w.dialWithin timeout target
  announcement handle := failing <|
    (w.send handle announcementQuery []).bind fun r => .done (r.one.bind Row.firstText)
  databases handle excluded := failing <|
    (w.send handle databasesQuery [excluded]).bind fun r => .done r.texts
  ping handle := failing (w.ping handle)
  close handle := failing (w.close handle)

end Wire
end PgMetrics
