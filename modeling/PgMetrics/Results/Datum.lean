import PgMetrics.Net.Address
import PgMetrics.Text.Utf8

/-! # Values in query results

A value has the type of its column and is absent, given by its meaning, or given by its raw bytes.
It is read as a number, a text, a truth value or an address; each reader knows the column types it
accepts and says why a value cannot be read.
-/
namespace PgMetrics.Results

inductive ColumnType where
  | bool
  | float4
  | float8
  | text
  | varchar
  | name
  | bpchar
  | unknown
  | inet
  | cidr
  | other (word : String)
  deriving Repr, DecidableEq

def ColumnType.sqlName : ColumnType → String
  | .bool => "BOOL"
  | .float4 => "FLOAT4"
  | .float8 => "FLOAT8"
  | .text => "TEXT"
  | .varchar => "VARCHAR"
  | .name => "NAME"
  | .bpchar => "CHAR"
  | .unknown => "UNKNOWN"
  | .inet => "INET"
  | .cidr => "CIDR"
  | .other word => String.ofList (word.toList.map Char.toUpper)

inductive Datum where
  | null
  | number (x : Float)
  | text (s : String)
  | flag (b : Bool)
  | integer (n : Int)
  | raw (bytes : List UInt8)
  deriving Repr, BEq

inductive Reading where
  | number
  | text
  | flag
  | address
  deriving Repr, DecidableEq

def Reading.valueName : Reading → String
  | .number => "f64"
  | .text => "alloc::string::String"
  | .flag => "bool"
  | .address => "ipnetwork::IpNetwork"

def Reading.columnType : Reading → ColumnType
  | .number => .float8
  | .text => .text
  | .flag => .bool
  | .address => .inet

def Reading.accepts : Reading → ColumnType → Bool
  | .number, .float8 => true
  | .text, .text | .text, .varchar | .text, .name | .text, .bpchar | .text, .unknown => true
  | .flag, .bool => true
  | .address, .inet | .address, .cidr => true
  | _, _ => false

inductive DatumFault where
  | null
  | mismatch (reading : Reading) (optional : Bool) (found : ColumnType)
  | utf8 (fault : Text.Utf8.Fault)
  | inetData
  | inetFamily (family : Nat)
  | inetBits
  | malformed
  deriving Repr, DecidableEq

def DatumFault.message : DatumFault → String
  | .null => "unexpected null; try decoding as an `Option`"
  | .mismatch reading optional found =>
    let wanted := if optional then "core::option::Option<" ++ reading.valueName ++ ">"
      else reading.valueName
    "mismatched types; Rust type `" ++ wanted ++ "` (as SQL type `" ++
      reading.columnType.sqlName ++ "`) is not compatible with SQL type `" ++ found.sqlName ++
      "`"
  | .utf8 fault => fault.message
  | .inetData => "invalid data received when expecting an INET"
  | .inetFamily family => s!"unknown ip family {family}"
  | .inetBits => "invalid prefix"
  | .malformed => "malformed value"

def float? (bytes : List UInt8) : Option Float :=
  if bytes.length < 8 then none
  else some (Float.ofBits (UInt64.ofNat ((bytes.take 8).foldl (fun n b => n * 256 + b.toNat) 0)))

def Datum.number? : Datum → Except DatumFault Float
  | .number x => .ok x
  | .raw bytes =>
    match float? bytes with
    | some x => .ok x
    | none => .error .malformed
  | _ => .error .malformed

def Datum.text? : Datum → Except DatumFault String
  | .text s => .ok s
  | .raw bytes =>
    match Text.Utf8.decode bytes with
    | .ok s => .ok s
    | .error fault => .error (.utf8 fault)
  | _ => .error .malformed

def Datum.flag? : Datum → Except DatumFault Bool
  | .flag b => .ok b
  | .raw (b :: _) => .ok (b != 0)
  | _ => .error .malformed

/-- An address on the wire: family, bits of the network, a flag, length, bytes. -/
def addressOfWire? : List UInt8 → Except DatumFault Net.Address
  | family :: bits :: _ :: len :: bytes =>
    if bytes.length < 4 then .error .inetData
    else if family = 2 then
      match bytes, decide (len = 4) with
      | [a, b, c, d], true => if bits ≤ 32 then .ok (.v4 a b c d) else .error .inetBits
      | _, _ => .error .inetData
    else if family = 3 then
      match Net.Address.ofBytes? bytes, decide (len = 16) with
      | some (.v6 groups), true => if bits ≤ 128 then .ok (.v6 groups) else .error .inetBits
      | _, _ => .error .inetData
    else .error (.inetFamily family.toNat)
  | _ => .error .inetData

/-- An address with its network bits, all of them unless others are given after a slash. -/
def wireOfText? (s : String) : Option (List UInt8) := do
  let (host, bits) := match Text.cut '/' s.toList with
    | some (host, bits) => (host, some bits)
    | none => (s.toList, none)
  let address ← Net.Address.ofText? host
  let bytes := address.bytes
  let bits ← match bits with
    | some cs => Decimal.natural? cs
    | none => some (bytes.length * 8)
  let family : UInt8 := if bytes.length = 4 then 2 else 3
  return family :: bits.toUInt8 :: 0 :: bytes.length.toUInt8 :: bytes

def Datum.address? : Datum → Except DatumFault Net.Address
  | .text s =>
    match wireOfText? s with
    | some bytes => addressOfWire? bytes
    | none => .error .malformed
  | .raw bytes => addressOfWire? bytes
  | _ => .error .malformed

end PgMetrics.Results
