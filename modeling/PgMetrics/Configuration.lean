import PgMetrics.CommandLine.Settings
import PgMetrics.Failure
import PgMetrics.Http.Route
import PgMetrics.Selection

/-! # The configuration of the exporter

A configuration is what was asked for, with defaults for the rest.  The metrics need an absolute
path other than that of the health check.
-/
namespace PgMetrics

/-- Everything the exporter needs to know to run; times are in seconds. -/
structure Configuration where
  port : Nat
  listen : Option String
  metricsPath : String
  dsn : String
  excluded : List String
  selection : Selection
  scrapeTimeout : Nat
  connectTimeout : Nat
  deriving Repr, DecidableEq

inductive PathFault where
  | relative (path : String)
  | reserved
  deriving Repr, DecidableEq

def PathFault.message : PathFault → String
  | .relative path => "Metrics path must start with '/': " ++ path
  | .reserved => s!"Metrics path cannot be {Http.healthPath}, it is reserved for the health check"

def PathFault.find? (path : String) : Option PathFault :=
  if path.toList.head? ≠ some '/' then some (.relative path)
  else if path = Http.healthPath then some .reserved
  else none

namespace Configuration

open CommandLine (Settings Setting)

def valueOr (s : Setting) (given : Option String) : String :=
  given.getD (s.text.default.getD "")

def numberOr (s : Setting) (given : Option Nat) : Nat :=
  given.getD ((Decimal.natural? (s.text.default.getD "").toList).getD 0)

def namesOr (s : Setting) (given : Option (List String)) : List String :=
  NameList.tidy (given.getD ((s.text.default.map NameList.splitCommas).getD []))

def selectionOf (given : Settings) : Selection where
  enabled := given.enabledScrapers
  cached := namesOr .cachedScrapers given.cachedScrapers
  ttl := numberOr .cacheTtl given.cacheTtl * 1000

/-- The configuration that was asked for, unless the metrics cannot have their path. -/
def ofSettings? (given : Settings) : Except PathFault Configuration :=
  let path := valueOr .metricsPath given.metricsPath
  match PathFault.find? path with
  | some fault => .error fault
  | none => .ok {
      port := numberOr .port given.port
      listen := given.listen
      metricsPath := path
      dsn := valueOr .dsn given.dsn
      excluded := namesOr .excludedDatabases given.excludedDatabases
      selection := selectionOf given
      scrapeTimeout := numberOr .scrapeTimeout given.scrapeTimeout
      connectTimeout := numberOr .connectTimeout given.connectTimeout }

end Configuration
end PgMetrics
