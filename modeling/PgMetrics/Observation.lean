/-! # Observations

An observation is one sample of one metric.  A `Sink` gathers the observations of a scrape in the
order in which they are made and never loses one.
-/
namespace PgMetrics

inductive Kind where
  | gauge
  | counter
  deriving Repr, DecidableEq

def Kind.text : Kind → String
  | .gauge => "gauge"
  | .counter => "counter"

/-- One sample: metric, labels in the order in which they were attached, and value. -/
structure Observation where
  kind : Kind
  name : String
  labels : List (String × String)
  value : Float
  help : String
  deriving Repr, BEq

namespace Observation

def label? (o : Observation) (name : String) : Option String := o.labels.lookup name

def labelNames (o : Observation) : List String := o.labels.map Prod.fst

def labelValues (o : Observation) : List String := o.labels.map Prod.snd

/-- Whether the observation is of that metric and carries all of the labels. -/
def matchesLabels (o : Observation) (name : String) (labels : List (String × String)) : Bool :=
  o.name == name && labels.all fun (key, value) => o.label? key == some value

end Observation

structure Sink where
  observations : List Observation := []
  deriving Repr, BEq

namespace Sink

def empty : Sink := {}

def push (s : Sink) (o : Observation) : Sink := ⟨s.observations ++ [o]⟩

def extend (s : Sink) (os : List Observation) : Sink := ⟨s.observations ++ os⟩

def gauge (s : Sink) (name help : String) (labels : List (String × String)) (value : Float) :
    Sink :=
  s.push ⟨.gauge, name, labels, value, help⟩

def counter (s : Sink) (name help : String) (labels : List (String × String)) (value : Float) :
    Sink :=
  s.push ⟨.counter, name, labels, value, help⟩

def size (s : Sink) : Nat := s.observations.length

def isEmpty (s : Sink) : Bool := s.observations.isEmpty

def find? (s : Sink) (name : String) (labels : List (String × String)) : Option Observation :=
  s.observations.find? (·.matchesLabels name labels)

def sameAt (s : Sink) (i j : Nat) : Bool := s.observations[i]? == s.observations[j]?

end Sink
end PgMetrics
