import PgMetrics.Net.Address
import PgMetrics.Text.Percent
import PgMetrics.Url.Basic

/-! # Hosts of locators

Square brackets hold an address of version 6.  Any other host of a plain scheme is opaque: a few
delimiters are forbidden in it and what is no printable ASCII is percent-encoded.  A host of the web
is a domain name, or an address of version 4 if its last label is a number.
-/
namespace PgMetrics.Url

def forbiddenInHost : List Char :=
  ['\x00', '\t', '\n', '\r', ' ', '#', '/', ':', '<', '>', '?', '@', '[', '\\', ']', '^', '|']

def isEncodedInHost (c : Char) : Bool := c.toNat < 0x20 || 0x7F ≤ c.toNat

def bracketed? (cs : List Char) : Except Fault String :=
  match cs.getLast?, Net.v6? cs.dropLast with
  | some ']', some (.v6 groups) => .ok ("[" ++ Net.shortGroups groups.toList ++ "]")
  | _, _ => .error .addressV6

def opaqueHost? (cs : List Char) : Except Fault String :=
  if cs.any forbiddenInHost.contains then .error .hostCharacter
  else .ok (String.ofList (Text.Percent.encode (!isEncodedInHost ·) cs))

/-- A number of an address of version 4: hexadecimal after `0x`, octal after `0`, else decimal. -/
def addressPart? (cs : List Char) : Option Nat :=
  let digits (base : Nat) (cs : List Char) : Option Nat :=
    (cs.mapM Net.hexValue?).bind fun ds =>
      if ds.all (· < base) then some (ds.foldl (fun n d => n * base + d) 0) else none
  match cs with
  | [] => none
  | '0' :: 'x' :: rest => digits 16 rest
  | '0' :: 'X' :: rest => digits 16 rest
  | '0' :: rest => digits 8 rest
  | cs => digits 10 cs

def labels (cs : List Char) : List (List Char) :=
  let fs := Text.fields '.' cs
  if fs.getLast? = some [] then fs.dropLast else fs

def endsInNumber (labels : List (List Char)) : Bool :=
  match labels.getLast? with
  | none => false
  | some last => (!last.isEmpty && last.all Char.isDigit) || (addressPart? last).isSome

def byteSpan (n : Nat) : Nat := Nat.pow 256 n

/-- The address of up to four numbers; the last one fills all bytes that are left. -/
def addressV4? (labels : List (List Char)) : Except Fault String :=
  match labels.mapM addressPart? with
  | none => .error .addressV4
  | some parts =>
    let leading := parts.dropLast
    let last := parts.getLastD 0
    if parts.isEmpty || 4 < parts.length || leading.any (255 < ·) ||
        byteSpan (4 - leading.length) ≤ last then .error .addressV4
    else
      let value := leading.zipIdx.foldl (fun n (p, i) => n + p * byteSpan (3 - i)) last
      .ok (Net.partsText (UInt8.ofNat (value / byteSpan 3)) (UInt8.ofNat (value / byteSpan 2))
        (UInt8.ofNat (value / byteSpan 1)) (UInt8.ofNat value))

/-- A host of the web, in lower case.  Names beyond ASCII have no written form here. -/
def webHost? (cs : List Char) : Except Fault String :=
  let name := (Text.Percent.decodeLossy (String.ofList cs)).toLower
  let chars := name.toList
  if chars.any fun c => isEncodedInHost c || forbiddenInHost.contains c || c == '%' then
    .error .domainName
  else if chars.isEmpty then .error .emptyHost
  else if endsInNumber (labels chars) then addressV4? (labels chars)
  else .ok name

def host? (style : Style) (cs : List Char) : Except Fault (Option String) :=
  match style, cs with
  | .plain, [] => .ok none
  | .file, [] => .ok none
  | .web _, [] => .error .emptyHost
  | _, '[' :: rest => some <$> bracketed? rest
  | .plain, cs => some <$> opaqueHost? cs
  | .web _, cs => some <$> webHost? cs
  | .file, cs => (webHost? cs).map fun name => if name = "localhost" then none else some name

end PgMetrics.Url
