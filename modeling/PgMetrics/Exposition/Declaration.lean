import PgMetrics.Exposition.Family

/-! # Declaring a metric

What a metric is called, means and is labelled by, with the checks it has to pass before it can be
exposed: a help that is not empty, a legal name, and legal label names without repetition.  The
first check that fails is the fault reported.
-/
namespace PgMetrics.Exposition

/-- Letters, underscore and (not first) digits, all ASCII; `extra` are further legal characters. -/
def isName (extra : Char → Bool) : List Char → Bool
  | [] => false
  | c :: rest =>
    let opening := fun c : Char => c.isAlpha || c == '_' || extra c
    opening c && rest.all fun c => opening c || c.isDigit

def isMetricName (s : String) : Bool := isName (· == ':') s.toList

def isLabelName (s : String) : Bool := isName (fun _ => false) s.toList

inductive Fault where
  | emptyHelp
  | metricName (name : String)
  | labelName (name : String)
  | repeatedLabel (name : String)
  | alreadyRegistered
  deriving Repr, DecidableEq

def Fault.message : Fault → String
  | .emptyHelp => "Error: empty help string"
  | .metricName name => s!"Error: '{name}' is not a valid metric name"
  | .labelName name => s!"Error: '{name}' is not a valid label name"
  | .repeatedLabel name => s!"Error: duplicate variable label name {name}"
  | .alreadyRegistered => "Duplicate metrics collector registration attempted"

structure Declaration where
  name : String
  help : String
  kind : Kind
  labelNames : List String
  deriving Repr, DecidableEq

/-- The first label name that is illegal or repeats one of `seen` or an earlier one. -/
def labelFault? (seen : List String) : List String → Option Fault
  | [] => none
  | l :: rest =>
    if !isLabelName l then some (.labelName l)
    else if l ∈ seen then some (.repeatedLabel l)
    else labelFault? (l :: seen) rest

namespace Declaration

def fault? (d : Declaration) : Option Fault :=
  if d.help = "" then some .emptyHelp
  else if !isMetricName d.name then some (.metricName d.name)
  else labelFault? [] d.labelNames

end Declaration

def Family.declaration (f : Family) : Declaration :=
  ⟨f.first.name, f.first.help, f.first.kind, f.first.labelNames⟩

theorem labelFault?_eq_none_iff {ls seen : List String} :
    labelFault? seen ls = none ↔
      (∀ l ∈ ls, isLabelName l ∧ l ∉ seen) ∧ ls.Nodup := by
  induction ls generalizing seen with
  | nil => simp [labelFault?]
  | cons l rest ih =>
    simp only [labelFault?, Bool.not_eq_true', List.mem_cons, List.nodup_cons]
    by_cases hn : isLabelName l
    · by_cases hs : l ∈ seen
      · simp [hn, hs]
      · simp only [hn, hs, Bool.true_eq_false, if_false, ih, List.mem_cons, not_or,
          forall_eq_or_imp, not_false_eq_true, and_self, true_and]
        constructor
        · rintro ⟨h, hd⟩
          exact ⟨fun x hx => ⟨(h x hx).1, (h x hx).2.2⟩, fun hl => (h l hl).2.1 rfl, hd⟩
        · rintro ⟨h, hl, hd⟩
          exact ⟨fun x hx => ⟨(h x hx).1, fun e => hl (e ▸ hx), (h x hx).2⟩, hd⟩
    · simp [hn]

end PgMetrics.Exposition
