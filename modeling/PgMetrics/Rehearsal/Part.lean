import PgMetrics.Rehearsal.Stage
import PgMetrics.Scraper

/-! # Scripted scrapers

A `Part` is a scraper that makes the same observations in every run, except for what its cues leave
open: the database, the number of the run, the version or the connection.
-/
namespace PgMetrics.Rehearsal

inductive LabelCue where
  | text (s : String)
  | database
  deriving Repr, DecidableEq

inductive ValueCue where
  | number (x : Float)
  | calls
  | version
  | connection
  deriving Repr

structure Cue where
  kind : Kind
  name : String
  labels : List (String × LabelCue)
  value : ValueCue
  help : String
  deriving Repr

inductive Failing where
  | never
  | always
  | runs (numbers : List Nat)
  deriving Repr, DecidableEq

def Failing.fails : Failing → Nat → Bool
  | .never, _ => false
  | .always, _ => true
  | .runs numbers, n => numbers.contains n

structure Part where
  name : String
  cues : List Cue
  failing : Failing := .never
  /-- A pause after the first observation. -/
  delay : Nat := 0
  enabledByDefault : Bool := true
  deriving Repr

def Cue.observation (c : Cue) (session : Session Nat) (version : Version) (run : Nat) :
    Observation where
  kind := c.kind
  name := c.name
  labels := c.labels.map fun (name, cue) => (name, match cue with
    | .text s => s
    | .database => session.database)
  value := match c.value with
    | .number x => x
    | .calls => Float.ofNat run
    | .version => version.number
    | .connection => Float.ofNat session.handle
  help := c.help

def Part.run (p : Part) (session : Session Nat) (version : Version) :
    Activity Stage Observation Verdict := do
  let number ← .ask fun _ s => (s.callsOf p.name + 1, s.countCall p.name)
  match p.cues.map fun c => c.observation session version number with
  | [] => pure ()
  | first :: rest =>
    .emit first
    if p.delay ≠ 0 then .pause p.delay
    .emitAll rest
  return if p.failing.fails number then .error ⟨p.name ++ " failed", []⟩ else .ok ()

def Part.source (p : Part) : Source Stage Nat := ⟨p.name, p.enabledByDefault, p.run⟩

end PgMetrics.Rehearsal
