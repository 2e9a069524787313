import PgMetrics.About
import PgMetrics.Table
import PgMetrics.Text.Base64
import PgMetrics.Text.Blank
import PgMetrics.Text.Fields

/-! # Metadata sent along with traces

Headers are written as `key=value` entries between commas; the last entry of a key counts.  As
metadata their keys are in lower case, and a key that ends in `-bin` has bytes, written in base 64.
Different headers may come to the same key, of which the last one counts: so the metadata depends on
the order in which the headers are gone through.
-/
namespace PgMetrics.Telemetry

abbrev Headers := Table String String

/-- The key and value of an entry; there is none without an equals sign or with a blank key. -/
def entry? (cs : List Char) : Option (String × String) :=
  match Text.cut '=' cs with
  | none => none
  | some (key, value) =>
    match Text.trimChars key with
    | [] => none
    | key => some (String.ofList key, String.ofList (Text.trimChars value))

def entries (s : String) : List (String × String) :=
  (Text.fields ',' s.toList).filterMap entry?

def Headers.ofText (s : String) : Headers :=
  (entries s).foldl (fun t (key, value) => t.put key value) .empty

inductive MetadataValue where
  | text (s : String)
  | bytes (b : List UInt8)
  deriving Repr, DecidableEq

abbrev Metadata := Table String MetadataValue

/-- What is wrong with a header; its key is in lower case. -/
inductive MetadataFault where
  | encoding (key : String) (fault : Text.Base64.Fault)
  | binaryKey (key : String)
  | textKey (key : String)
  | textValue (key : String)
  deriving Repr, DecidableEq

def keyFault : String := "invalid gRPC metadata key name"

def MetadataFault.message : MetadataFault → String
  | .encoding key fault => s!"invalid base64 value for metadata key {key}: {fault.message}"
  | .binaryKey key => s!"invalid binary metadata key {key}: {keyFault}"
  | .textKey key => s!"invalid metadata key {key}: {keyFault}"
  | .textValue key => s!"invalid metadata value for key {key}: failed to parse metadata value"

def keyMarks : List Char := "!#$%&'*+-.^_`|~".toList

def isKey (s : String) : Bool :=
  !s.isEmpty && s.length < 65536 && s.toList.all fun c => c.isAlphanum || keyMarks.contains c

def isBinaryKey (key : String) : Bool := key.endsWith "-bin"

def metadataEntry? (key value : String) : Except MetadataFault (String × MetadataValue) :=
  let key := key.toLower
  if isBinaryKey key then
    match Text.Base64.decode (Text.Utf8.encode value) with
    | .error fault => .error (.encoding key fault)
    | .ok bytes => if isKey key then .ok (key, .bytes bytes) else .error (.binaryKey key)
  else if !isKey key then .error (.textKey key)
  else if isHeaderText value then .ok (key, .text value)
  else .error (.textValue key)

/-- The metadata of headers, gone through in this order, up to the first fault. -/
def metadataOf? (metadata : Metadata) : List (String × String) → Except MetadataFault Metadata
  | [] => .ok metadata
  | (key, value) :: rest =>
    match metadataEntry? key value with
    | .error fault => .error fault
    | .ok (key, value) => metadataOf? (metadata.put key value) rest

def Headers.metadata? (headers : Headers) : Except MetadataFault Metadata :=
  metadataOf? .empty headers.entries

end PgMetrics.Telemetry
