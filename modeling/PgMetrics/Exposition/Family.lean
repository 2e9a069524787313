import PgMetrics.Observation

/-! # Metric families

Observations of one metric name form a family.  `group` sorts observations into families, the
families in the order in which their names first appear and the members of each in the order in
which they were made.

The first member decides the kind, the help and the label names of its family; a member that
disagrees with it in kind or label names is left out, and so is a counter's member whose value is
not a finite number of at least zero.
-/
namespace PgMetrics.Exposition

/-- The observations of one metric, which are never none. -/
structure Family where
  first : Observation
  rest : List Observation := []
  deriving Repr, BEq

namespace Family

def name (f : Family) : String := f.first.name

def members (f : Family) : List Observation := f.first :: f.rest

def add (f : Family) (o : Observation) : Family := { f with rest := f.rest ++ [o] }

def agrees (f : Family) (o : Observation) : Bool :=
  o.kind == f.first.kind && o.labelNames == f.first.labelNames

@[simp] theorem name_add (f : Family) (o : Observation) : (f.add o).name = f.name := rfl

@[simp] theorem members_add (f : Family) (o : Observation) :
    (f.add o).members = f.members ++ [o] := rfl

end Family

/-- Whether the value may stand for a metric of that kind: a counter only moves forward. -/
def admissible (kind : Kind) (x : Float) : Bool :=
  match kind with
  | .gauge => true
  | .counter => x.isFinite && 0 ≤ x

def Family.accepted (f : Family) : List Observation :=
  f.members.filter fun o => f.agrees o && admissible f.first.kind o.value

/-- Adds an observation to the family of its name, which is a new last one if there is none yet. -/
def place (o : Observation) : List Family → List Family
  | [] => [⟨o, []⟩]
  | f :: rest => if f.name = o.name then f.add o :: rest else f :: place o rest

def group (os : List Observation) : List Family := os.foldl (fun fs o => place o fs) []

theorem names_place (o : Observation) (fs : List Family) :
    (place o fs).map Family.name =
      if o.name ∈ fs.map Family.name then fs.map Family.name
      else fs.map Family.name ++ [o.name] := by
  induction fs with
  | nil => simp [place, Family.name]
  | cons f rest ih =>
    simp only [place]
    by_cases h : f.name = o.name
    · simp [h]
    · simp only [h, if_false, List.map_cons, ih, List.mem_cons, Ne.symm h, false_or]
      split <;> simp

end PgMetrics.Exposition
