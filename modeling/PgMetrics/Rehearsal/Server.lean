import PgMetrics.Text.Blank
import PgMetrics.Wire

/-! # A scripted database server

The server answers queries from a list of entries: the first one whose text occurs in the query,
whose database is the connection's, and which has not been used up.  Without such an entry it knows
its version and its databases and nothing else.  It keeps a record of every connection.
-/
namespace PgMetrics.Rehearsal

open Results

inductive Answer where
  | rows (rows : List Row)
  | refusal (message : String)
  | lateRefusal (rows : List Row) (message : String)
  | hangUp
  deriving Repr, BEq

structure Entry where
  pattern : String
  database : Option String := none
  /-- How often the entry may be used. -/
  times : Option Nat := none
  delay : Nat := 0
  answer : Answer
  deriving Repr, BEq

structure Arrival where
  delay : Nat := 0
  refusal : Option String := none
  hangUp : Bool := false
  deriving Repr, DecidableEq

structure Setup where
  version : String := ""
  databases : List String := []
  entries : List Entry := []
  arrivals : List (String × Arrival) := []
  down : Bool := false
  deriving Repr, BEq

/-- A query as the server received it; the parameters follow only once it has been accepted. -/
structure Received where
  query : String
  parameters : Option (List (List String))
  deriving Repr, DecidableEq

structure Visit where
  database : String
  user : String
  application : String
  received : List Received := []
  terminated : Bool := false
  lost : Bool := false
  deriving Repr, DecidableEq

structure Server where
  setup : Setup := {}
  used : List Nat := []
  visits : List Visit := []
  deriving Repr

def oneLine (cs : List Char) : List Char :=
  match cs with
  | [] => []
  | c :: rest =>
    if Text.isBlank c then
      match oneLine rest with
      | ' ' :: more => ' ' :: more
      | more => ' ' :: more
    else c :: oneLine rest

def normalized (sql : String) : String :=
  String.ofList (Text.trimChars (oneLine sql.toList))

def occurs (needle : List Char) : List Char → Bool
  | [] => needle.isEmpty
  | c :: rest => needle.isPrefixOf (c :: rest) || occurs needle rest

/-- Whether an entry that has been used so often answers a query on a database. -/
def Entry.answers (e : Entry) (used : Nat) (database query : String) : Bool :=
  occurs e.pattern.toList query.toList && (e.database.all (· == database)) &&
    (e.times.all (used < ·))

def textRow (column : String) (type : ColumnType) (text : String) : Row :=
  [⟨column, type, .text text⟩]

namespace Server

def ownAnswer (s : Setup) (query : String) (parameters : List (List String)) : Answer :=
  if occurs "current_setting('server_version')".toList query.toList then
    .rows [textRow "current_setting" .text s.version]
  else if occurs "NOT datistemplate".toList query.toList then
    .rows ((s.databases.filter fun d => !(parameters.flatten.contains d)).map
      (textRow "datname" .name))
  else .refusal "no result for this query"

def entryFor (database query : String) : Nat → List Entry → List Nat → Option (Nat × Entry)
  | _, [], _ => none
  | i, e :: rest, used =>
    if e.answers (used.headD 0) database query then some (i, e)
    else entryFor database query (i + 1) rest used.tail

def countUse : Nat → List Nat → List Nat
  | 0, [] => [1]
  | 0, n :: rest => (n + 1) :: rest
  | i + 1, [] => 0 :: countUse i []
  | i + 1, n :: rest => n :: countUse i rest

def onVisit (s : Server) (number : Nat) (change : Visit → Visit) : Server :=
  { s with visits := s.visits.modify number change }

def isLost (s : Server) (number : Nat) : Bool := (s.visits[number]?.map (·.lost)).getD true

/-- What is answered to a query, and after what delay. -/
def choose (s : Server) (database query : String) (parameters : List (List String)) :
    (Nat × Answer) × Server :=
  match entryFor database query 0 s.setup.entries s.used with
  | some (i, e) => ((e.delay, e.answer), { s with used := countUse i s.used })
  | none => ((0, ownAnswer s.setup query parameters), s)

/-- The server's answer takes its time, and is never there at once. -/
def travel (delay : Nat) : Activity Server Empty Unit := do
  if delay ≠ 0 then .pause delay
  .pause 0

def brokenPipe : QueryFault := .broken "Broken pipe (os error 32)"

def endOfFile : QueryFault := .broken "expected to read 5 bytes, got 0 bytes at EOF"

def receive (query : String) (v : Visit) : Visit :=
  { v with received := v.received ++ [⟨query, none⟩] }

def receiveParameters (parameters : List (List String)) (v : Visit) : Visit :=
  if parameters.isEmpty then v
  else { v with received := v.received.modify (v.received.length - 1) fun r =>
    { r with parameters := some parameters } }

def send (number : Nat) (sql : String) (parameters : List (List String)) :
    Activity Server Empty Reply := do
  if (← .state).isLost number then return { fault := some brokenPipe }
  let query := normalized sql
  let (delay, answer) ← .ask fun _ s =>
    let database := (s.visits[number]?.map (·.database)).getD ""
    (s.onVisit number (receive query)).choose database query parameters
  travel delay
  match answer with
  | .rows rows =>
    .modify (·.onVisit number (receiveParameters parameters))
    return { rows }
  | .lateRefusal rows message =>
    .modify (·.onVisit number (receiveParameters parameters))
    return { rows, fault := some (.refused message) }
  | .refusal message => return { fault := some (.refused message) }
  | .hangUp =>
    .modify (·.onVisit number fun v => { v with lost := true })
    return { fault := some endOfFile }

def wantsTls (mode : SslMode) : Bool :=
  mode = .require || mode = .verifyCa || mode = .verifyFull

def dial (source : DataSource) : Activity Server Empty (Except QueryFault Nat) := do
  if (← .state).setup.down then
    return .error (.broken "No such file or directory (os error 2)")
  .pause 0
  if wantsTls source.sslMode then return .error (.insecure "server does not support TLS")
  let database := source.database.getD source.username
  let (number, arrival) ← .ask fun _ s =>
    ((s.visits.length, (s.setup.arrivals.lookup database).getD {}),
      { s with visits := s.visits ++
        [⟨database, source.username, source.applicationName.getD "", [], false, false⟩] })
  travel arrival.delay
  if arrival.hangUp then return .error endOfFile
  match arrival.refusal with
  | some message => return .error (.refused message)
  | none => return .ok number

def ping (number : Nat) : Activity Server Empty (Except QueryFault Unit) := do
  if (← .state).isLost number then return .error brokenPipe
  .pause 0
  return .ok ()

def close (number : Nat) : Activity Server Empty (Except QueryFault Unit) := do
  if (← .state).isLost number then return .error brokenPipe
  .modify (·.onVisit number fun v => { v with terminated := true })
  return .ok ()

def wire : Wire Server Nat := ⟨dial, send, ping, close⟩

end Server
end PgMetrics.Rehearsal
