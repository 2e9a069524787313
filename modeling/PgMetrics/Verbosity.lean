/-! # How much is logged -/
namespace PgMetrics

inductive LogLevel where
  | info
  | debug
  | trace
  deriving Repr, DecidableEq

def LogLevel.text : LogLevel → String
  | .info => "INFO"
  | .debug => "DEBUG"
  | .trace => "TRACE"

def LogLevel.ofCount? : Nat → Option LogLevel
  | 0 => none
  | 1 => some .info
  | 2 => some .debug
  | _ => some .trace

end PgMetrics
