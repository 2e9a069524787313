import PgMetrics.Text.Blank
import PgMetrics.Text.Fields

/-! # Trace contexts

A request may say in its `traceparent` header which trace it belongs to: version, trace, span and
flags, hexadecimal and joined by hyphens.  A header that is no valid context says nothing.
-/
namespace PgMetrics.Http

def hexDigit? (c : Char) : Option Nat :=
  if c.isDigit then some (c.toNat - 0x30)
  else if 'a' ≤ c && c ≤ 'f' then some (c.toNat - 0x57)
  else if 'A' ≤ c && c ≤ 'F' then some (c.toNat - 0x37)
  else none

def hexFrom (bound acc : Nat) : List Char → Option Nat
  | [] => some acc
  | c :: rest =>
    match hexDigit? c with
    | some d => if acc * 16 + d < bound then hexFrom bound (acc * 16 + d) rest else none
    | none => none

def hex? (bound : Nat) : List Char → Option Nat
  | [] => none
  | ['+'] => none
  | '+' :: rest => hexFrom bound 0 rest
  | cs => hexFrom bound 0 cs

def hexText (width n : Nat) : String :=
  let ds := Nat.toDigits 16 n
  String.ofList (List.replicate (width - ds.length) '0' ++ ds)

/-- The fields between hyphens; a hyphen at the very end begins no field. -/
def hyphenFields (cs : List Char) : List (List Char) :=
  let fs := Text.fields '-' cs
  if fs.getLast? = some [] then fs.dropLast else fs

/-- The trace and the flags of a valid context. -/
structure TraceContext where
  trace : Nat
  span : Nat
  flags : Nat
  deriving Repr, DecidableEq

def TraceContext.ofHeader? (header : String) : Option TraceContext := do
  if !header.toList.all (fun c => c == '\t' || (' ' ≤ c && c ≤ '~')) then none
  match hyphenFields (Text.trimChars header.toList) with
  | version :: trace :: span :: flags :: more =>
    let version ← hex? 255 version
    if version = 0 && !more.isEmpty then none
    if trace.any Char.isUpper || span.any Char.isUpper then none
    let trace ← hex? 0x100000000000000000000000000000000 trace
    let span ← hex? 0x10000000000000000 span
    let flags ← hex? 256 flags
    if version = 0 && 2 < flags then none
    if trace = 0 || span = 0 then none
    return ⟨trace, span, flags⟩
  | _ => none

def TraceContext.text (t : TraceContext) : String := hexText 32 t.trace

end PgMetrics.Http
