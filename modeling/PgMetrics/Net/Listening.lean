import PgMetrics.Failure
import PgMetrics.Net.Address

/-! # Where the exporter listens

It listens on the address that is asked for.  If none is, it listens on every address: of both
versions if the host has version 6, else of version 4.
-/
namespace PgMetrics.Net

def Address.anyV4 : Address := .v4 0 0 0 0

def Address.anyV6 : Address := .v6 (Vector.replicate 8 0)

inductive ListenFault where
  | notAnAddress (text : String)
  | unavailable (address : Address) (port : Nat)
  deriving Repr, DecidableEq

def ListenFault.failure : ListenFault → Failure
  | .notAnAddress text =>
    ⟨"Invalid IP address: '" ++ text ++
      "'. Expected IPv4 (e.g., 0.0.0.0, 127.0.0.1) or IPv6 (e.g., ::, ::1)", []⟩
  | .unavailable address port =>
    ⟨"Failed to bind to " ++ address.withPort port,
      ["Cannot assign requested address (os error 99)"]⟩

def listenOn? (hasAddress : Address → Bool) (listen : Option String) (port : Nat) :
    Except ListenFault Address :=
  let available (address : Address) : Except ListenFault Address :=
    if hasAddress address then .ok address else .error (.unavailable address port)
  match listen with
  | some text =>
    match Address.ofText? text.toList with
    | some address => available address
    | none => .error (.notAnAddress text)
  | none => if hasAddress .anyV6 then .ok .anyV6 else available .anyV4

end PgMetrics.Net
