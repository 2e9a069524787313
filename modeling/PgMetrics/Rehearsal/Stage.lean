import PgMetrics.Gateway
import PgMetrics.Table

/-! # A scripted server

A `Stage` stands in for a server: it says which databases there are, what fails and how long things
take, and it records the connections that are opened and closed and the runs of scrapers.
-/
namespace PgMetrics.Rehearsal

/-- What the scripted server does; delays are in milliseconds. -/
structure Script where
  version : String := ""
  databases : List String := []
  refused : List String := []
  failVersion : Bool := false
  failDiscovery : Bool := false
  failPing : Bool := false
  failClose : Bool := false
  connectDelay : Nat := 0
  versionDelay : Nat := 0
  discoveryDelay : Nat := 0
  pingDelay : Nat := 0
  closeDelay : Nat := 0
  deriving Repr, DecidableEq

structure Stage where
  script : Script := {}
  next : Nat := 0
  calls : Table String Nat := .empty
  opened : List (Nat × String) := []
  closed : List Nat := []
  excluded : List (List String) := []
  deriving Repr

namespace Stage

def clearLog (s : Stage) : Stage := { s with opened := [], closed := [], excluded := [] }

def callsOf (s : Stage) (name : String) : Nat := (s.calls.get? name).getD 0

def countCall (s : Stage) (name : String) : Stage :=
  { s with calls := s.calls.put name (s.callsOf name + 1) }

def delay {ω : Type} (span : Script → Nat) : Activity Stage ω Unit := do
  match span (← .state).script with
  | 0 => return ()
  | n => .pause n

/-- What the scripted server answers, after a delay; `none` stands for a failure. -/
def reply {α : Type} (span : Script → Nat) (message : String)
    (answer : Stage → Option α × Stage) : Activity Stage Empty (Except Failure α) := do
  delay span
  match ← .ask fun _ s => answer s with
  | some a => return .ok a
  | none => return .error ⟨message, []⟩

def open_ (target : Target) : Query Stage Nat :=
  reply Script.connectDelay s!"connection to {target.database} refused" fun s =>
    if s.script.refused.contains target.database then (none, s)
    else (some s.next,
      { s with next := s.next + 1, opened := s.opened ++ [(s.next, target.database)] })

def announcement (_ : Nat) : Query Stage String :=
  reply Script.versionDelay "version query failed" fun s =>
    (if s.script.failVersion then none else some s.script.version, s)

def databases (_ : Nat) (excluded : List String) : Query Stage (List String) :=
  reply Script.discoveryDelay "discovery query failed" fun s =>
    if s.script.failDiscovery then (none, s)
    else (some (s.script.databases.filter fun d => !excluded.contains d),
      { s with excluded := s.excluded ++ [excluded] })

def ping (_ : Nat) : Query Stage Unit :=
  reply Script.pingDelay "ping failed" fun s => (if s.script.failPing then none else some (), s)

def close (number : Nat) : Query Stage Unit :=
  reply Script.closeDelay "close failed" fun s =>
    if s.script.failClose then (none, s) else (some (), { s with closed := s.closed ++ [number] })

def gateway : Gateway Stage Nat := ⟨open_, announcement, databases, ping, close⟩

end Stage
end PgMetrics.Rehearsal
