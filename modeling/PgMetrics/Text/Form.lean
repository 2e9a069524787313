import PgMetrics.Text.Fields
import PgMetrics.Text.Percent

/-! # Form-encoded pairs

A form is a list of `name=value` pairs between ampersands, in which a plus sign stands for a blank
and bytes may be percent-encoded.  Empty pairs count for nothing; a pair without an equals sign has
an empty value.
-/
namespace PgMetrics.Text.Form

def component (cs : List Char) : String :=
  Percent.decodeLossy (String.ofList (cs.map fun c => if c = '+' then ' ' else c))

def pair (cs : List Char) : String × String :=
  match cut '=' cs with
  | some (name, value) => (component name, component value)
  | none => (component cs, "")

def pairs (form : String) : List (String × String) :=
  ((fields '&' form.toList).filter fun f => !f.isEmpty).map pair

def values (name : String) (form : String) : List String :=
  ((pairs form).filter fun p => p.1 == name).map Prod.snd

end PgMetrics.Text.Form
