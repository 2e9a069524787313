import PgMetrics.Net.Address

/-! # Names of hosts

A name is made of labels between dots; one more dot may stand at its end.  A name whose last label
is a number could be taken for an address, and is none.
-/
namespace PgMetrics.Net

def isLabel (cs : List Char) : Bool :=
  !cs.isEmpty && cs.length ≤ 63 && cs.head? != some '-' && cs.getLast? != some '-' &&
    cs.all fun c => c.isAlphanum || c == '-' || c == '_'

/-- The labels of a name, without the empty one after a final dot. -/
def nameLabels (cs : List Char) : List (List Char) :=
  match Text.fields '.' cs with
  | [only] => [only]
  | labels => if labels.getLast? = some [] then labels.dropLast else labels

def isHostName (cs : List Char) : Bool :=
  cs.length ≤ 253 && (nameLabels cs).all isLabel &&
    !((nameLabels cs).getLastD []).all Char.isDigit

/-- Whether a text is a name or an address that a host can prove to be its own. -/
def isProvable (cs : List Char) : Bool := isHostName cs || (Address.ofText? cs).isSome

example : isHostName "otel.example.com.".toList ∧ ¬ isHostName "10.0.0.1".toList := by decide

end PgMetrics.Net
