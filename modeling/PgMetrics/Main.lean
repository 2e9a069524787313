import PgMetrics.Rehearsal.Server
import PgMetrics.Startup

/-! # The program

It starts as the arguments and the environment ask, says where it listens, and answers the requests
that it reads from its standard input, one to a line: a method, a blank and a target.  The bodies
of the answers go to standard output.  No database is reachable from here, so all of them say so.
-/
namespace PgMetrics

def variableNames : List String :=
  CommandLine.Setting.all.map (·.text.variableName) ++
    [Telemetry.endpointVariable, Telemetry.headersVariable, "PGHOST", "PGHOSTADDR", "PGPORT",
      "PGUSER", "USER", "PGPASSWORD", "PGDATABASE", "PGSSLMODE", "PGAPPNAME", "PGOPTIONS"]

def readEnvironment : IO Environment :=
  variableNames.filterMapM fun name => do
    return (← IO.getEnv name).map fun value => (name, value)

def requestOf (line : String) : Http.Request :=
  match Text.cut ' ' (Text.trim line).toList with
  | some (method, target) => .ofTarget (String.ofList method) (String.ofList target) []
  | none => .ofTarget "GET" (Text.trim line) []

def emptyWorld : World Rehearsal.Server := ⟨{ setup := { down := true } }, .empty⟩

partial def serve (service : Service Rehearsal.Server Nat) (routes : Http.Routes)
    (input : IO.FS.Stream) (time : Nat) (world : World Rehearsal.Server) : IO Unit := do
  let line ← input.getLine
  if line.isEmpty then return
  let o := (service.respond routes (requestOf line)).run time world
  IO.println o.value.answer.body
  serve service routes input o.time o.state

def Exporter.run (e : Exporter) : IO UInt32 := do
  IO.print (e.greeting Rehearsal.Server.wire)
  match e.routes? with
  | .error _ => return 101
  | .ok routes =>
    serve (e.service Rehearsal.Server.wire) routes (← IO.getStdin) 0 emptyWorld
    return 0

end PgMetrics

def main (args : List String) : IO UInt32 := do
  match PgMetrics.Exporter.start (fun _ => true) (← PgMetrics.readEnvironment) args with
  | .ok exporter => exporter.run
  | .error ending =>
    IO.print ending.output
    IO.eprint ending.errors
    return ending.status.toUInt32
