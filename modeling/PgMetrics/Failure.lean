/-! # Failures with causes

A `Failure` is a message with the messages of what caused it, outermost first.
-/
namespace PgMetrics

/-- A message and the messages of its causes, the nearest cause first. -/
structure Failure where
  message : String
  causes : List String := []
  deriving Repr, DecidableEq

namespace Failure

def chain (f : Failure) : List String := f.message :: f.causes

def under (f : Failure) (message : String) : Failure := ⟨message, f.chain⟩

end Failure
end PgMetrics
