import PgMetrics.Environment
import PgMetrics.Failure
import PgMetrics.Telemetry.Endpoint
import PgMetrics.Telemetry.Metadata

/-! # Starting telemetry

Traces are sent if the environment names an endpoint.
-/
namespace PgMetrics.Telemetry

def endpointVariable : String := "OTEL_EXPORTER_OTLP_ENDPOINT"

def headersVariable : String := "OTEL_EXPORTER_OTLP_HEADERS"

structure Sender where
  endpoint : String
  metadata : Metadata
  deriving Repr, BEq

def sender? (env : Environment) : Except Failure (Option Sender) :=
  match env.get? endpointVariable with
  | none => .ok none
  | some endpoint =>
    let endpoint := Endpoint.withScheme endpoint
    let headers := Headers.ofText ((env.get? headersVariable).getD "")
    match headers.metadata? with
    | .error fault => .error ⟨fault.message, []⟩
    | .ok metadata =>
      match Endpoint.Fault.find? endpoint with
      | some fault => .error ⟨"Failed to build OTLP span exporter", [fault.message]⟩
      | none => .ok (some ⟨endpoint, metadata⟩)

end PgMetrics.Telemetry
