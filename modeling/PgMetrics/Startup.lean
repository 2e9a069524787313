import PgMetrics.CommandLine.Usage
import PgMetrics.Configuration
import PgMetrics.Net.Listening
import PgMetrics.Service.Http
import PgMetrics.Target.Dsn
import PgMetrics.Telemetry.Startup

/-! # Starting the exporter

The arguments come first, then telemetry, the path of the metrics, the data source name and the
address to listen on; the first that is at fault decides how the program ends.
-/
namespace PgMetrics

/-- How a program ends: its status and what it leaves on its two outputs. -/
structure Ending where
  status : Nat
  output : String := ""
  errors : String := ""
  deriving Repr, DecidableEq

def causeText (numbered : Bool) (number : Nat) (cause : String) : String :=
  let lines := (Text.fields '\n' cause.toList).map String.ofList
  if numbered then s!"    {number}: " ++ "\n       ".intercalate lines
  else "    " ++ "\n    ".intercalate lines

def Failure.report (f : Failure) : String :=
  let numbered := 1 < f.causes.length
  let causes := f.causes.zipIdx.map fun (cause, i) => "\n" ++ causeText numbered i cause
  "Error: " ++ f.message ++
    (if f.causes.isEmpty then "" else "\n\nCaused by:" ++ String.join causes) ++ "\n"

def Ending.ofFailure (f : Failure) : Ending := ⟨1, "", f.report⟩

def Ending.ofStop (about : About) (env : Environment) : CommandLine.Stop → Ending
  | .help => ⟨0, CommandLine.helpText about env, ""⟩
  | .version long => ⟨0, CommandLine.versionText about long, ""⟩
  | .refused r => ⟨2, "", CommandLine.refusalText about r⟩

structure Exporter where
  configuration : Configuration
  target : Target
  address : Net.Address
  verbosity : Nat
  sender : Option Telemetry.Sender
  deriving BEq

namespace Exporter

/-- The exporter that arguments and environment ask for, on a host with these addresses. -/
def start (hasAddress : Net.Address → Bool) (env : Environment) (args : List String) :
    Except Ending Exporter := do
  let given ← (CommandLine.Settings.ofArguments? env args).mapError (Ending.ofStop .this env)
  let sender ← (Telemetry.sender? env).mapError .ofFailure
  let c ← (Configuration.ofSettings? given).mapError fun fault => .ofFailure ⟨fault.message, []⟩
  let target ← (Target.ofDsn? env c.dsn).mapError .ofFailure
  let address ← (Net.listenOn? hasAddress c.listen c.port).mapError fun fault =>
    .ofFailure fault.failure
  return ⟨c, target, address, given.verbosity, sender⟩

def bullets (names : List String) : String := "\n".intercalate (names.map ("  - " ++ ·))

variable {σ κ : Type}

def service (e : Exporter) (wire : Wire σ κ) : Service σ κ where
  gateway := wire.gateway (e.configuration.connectTimeout * 1000)
  target := e.target
  scrapers := e.configuration.selection.scrapers wire
  excluded := e.configuration.excluded
  timeout := e.configuration.scrapeTimeout * 1000
  process := some {}

def greeting (e : Exporter) (wire : Wire σ κ) : String :=
  let c := e.configuration
  About.this.name ++ " " ++ About.this.version ++ " - Listening on " ++
    e.address.withPort c.port ++ c.metricsPath ++ "\n\nEnabled scrapers:\n" ++
    bullets (e.service wire).scrapers.names ++ "\n" ++
    (if c.excluded.isEmpty then "" else "\nExcluded databases:\n" ++ bullets c.excluded ++ "\n")

def routes? (e : Exporter) : Except Http.RouteFault Http.Routes :=
  Http.Routes.ofMetricsPath? e.configuration.metricsPath

end Exporter
end PgMetrics
