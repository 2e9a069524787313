import PgMetrics.Exposition.Declaration
import PgMetrics.Failure
import PgMetrics.Text.Utf8

/-! # Registering metrics

A `Metric` is a declaration with its series, one for each combination of label values.  A series is
found again by a fingerprint of its label values written one after the other, so two combinations
that spell the same text share one series: the first one's labels stay and the last value counts.

A `Registry` holds metrics of distinct names in the order of their registration.
-/
namespace PgMetrics.Exposition

def fingerprint (bytes : List UInt8) : UInt64 :=
  bytes.foldl (fun h b => (h ^^^ b.toUInt64) * 0x100000001B3) 0xCBF29CE484222325

/-- What a series is found by: the fingerprint of its label values without separators. -/
def identity (values : List String) : UInt64 :=
  fingerprint (Text.Utf8.encode (String.join values))

structure Series where
  labelValues : List String
  value : Float
  deriving Repr, BEq

structure Metric where
  declaration : Declaration
  series : List Series
  deriving Repr, BEq

/-- Gives the series of those label values a value; a new one comes last. -/
def setSeries (values : List String) (x : Float) : List Series → List Series
  | [] => [⟨values, x⟩]
  | s :: rest =>
    if identity s.labelValues = identity values then { s with value := x } :: rest
    else s :: setSeries values x rest

namespace Metric

/-- A metric before its first value: without labels there is one series from the start, at zero. -/
def new (d : Declaration) : Metric := ⟨d, if d.labelNames = [] then [⟨[], 0⟩] else []⟩

def name (m : Metric) : String := m.declaration.name

/-- Gives a series its value.  A counter is set to zero and then moved forward by the value. -/
def set (m : Metric) (values : List String) (x : Float) : Metric :=
  let x := match m.declaration.kind with
    | .gauge => x
    | .counter => 0 + x
  { m with series := setSeries values x m.series }

@[simp] theorem declaration_set (m : Metric) (values : List String) (x : Float) :
    (m.set values x).declaration = m.declaration := rfl

end Metric

def Family.metric (f : Family) : Metric :=
  f.accepted.foldl (fun m o => m.set o.labelValues o.value) (Metric.new f.declaration)

structure Registry where
  metrics : List Metric := []
  deriving Repr, BEq

namespace Registry

def empty : Registry := {}

def contains (r : Registry) (name : String) : Bool := r.metrics.any (·.name == name)

def register (r : Registry) (m : Metric) : Except Fault Registry :=
  if r.contains m.name then .error .alreadyRegistered else .ok ⟨r.metrics ++ [m]⟩

def registerFamily (r : Registry) (f : Family) : Except Fault Registry :=
  match f.declaration.fault? with
  | some fault => .error fault
  | none => r.register f.metric

/-- What registering families comes to: the registry reached, and the first family that failed. -/
def registerFamilies (r : Registry) : List Family → Registry × Option (String × Fault)
  | [] => (r, none)
  | f :: rest =>
    match r.registerFamily f with
    | .ok r => registerFamilies r rest
    | .error fault => (r, some (f.name, fault))

def registerAll (r : Registry) (os : List Observation) : Registry × Option (String × Fault) :=
  r.registerFamilies (group os)

def registerMetrics (r : Registry) : List Metric → Except Fault Registry
  | [] => .ok r
  | m :: rest =>
    match r.register m with
    | .ok r => registerMetrics r rest
    | .error fault => .error fault

end Registry

def familyFailure (name : String) (fault : Fault) : Failure :=
  ⟨s!"Failed to register {name}", [fault.message]⟩

end PgMetrics.Exposition
