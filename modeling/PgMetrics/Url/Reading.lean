import PgMetrics.Decimal.Reading
import PgMetrics.Text.Blank
import PgMetrics.Url.Host
import PgMetrics.Url.Path

/-! # Reading locators

Controls and spaces around a locator do not belong to it, and tabs and line ends in it count for
nothing.  After the scheme, two slashes announce an authority: a user and password before the last
`@`, then a host and a port.  An authority may be empty, unless a user or a port stands in it.
-/
namespace PgMetrics.Url

def isPadding (c : Char) : Bool := c.toNat ≤ 0x20

def significant (s : String) : List Char :=
  (Text.dropEndWhile isPadding (s.toList.dropWhile isPadding)).filter fun c =>
    !(c == '\t' || c == '\n' || c == '\r')

def isSchemeChar (c : Char) : Bool := c.isAlphanum || c == '+' || c == '-' || c == '.'

def scheme? (cs : List Char) : Option (String × List Char) :=
  match cs.head?, cs.dropWhile isSchemeChar with
  | some c, ':' :: rest =>
    if c.isAlpha then some ((String.ofList (cs.takeWhile isSchemeChar)).toLower, rest) else none
  | _, _ => none

def query? : List Char → Option String
  | '?' :: rest => some (String.ofList (rest.takeWhile (· != '#')))
  | _ => none

def inPath (c : Char) : Bool := c != '?' && c != '#'

structure Login where
  username : String := ""
  password : Option String := none
  rest : List Char
  deriving Repr, DecidableEq

def cutLast (sep : Char) (cs : List Char) : Option (List Char × List Char) :=
  (Text.cut sep cs.reverse).map fun (after, before) => (before.reverse, after.reverse)

/-- Splits an authority at its last `@`; an empty password counts for none. -/
def login (authority : List Char) : Login :=
  match cutLast '@' authority with
  | none => ⟨"", none, authority⟩
  | some (info, rest) =>
    match Text.cut ':' info with
    | none => ⟨String.ofList info, none, rest⟩
    | some (user, []) => ⟨String.ofList user, none, rest⟩
    | some (user, password) => ⟨String.ofList user, some (String.ofList password), rest⟩

/-- The host ends at the first colon outside of brackets. -/
def hostLength (bracket : Bool) : List Char → Nat
  | [] => 0
  | c :: rest =>
    if c == ':' && !bracket then 0
    else hostLength (c == '[' || (bracket && c != ']')) rest + 1

def port? : List Char → Except Fault (Option Nat × List Char)
  | ':' :: rest =>
    match rest.dropWhile Char.isDigit with
    | [] => number (rest.takeWhile Char.isDigit) []
    | '\\' :: more => number (rest.takeWhile Char.isDigit) ('\\' :: more)
    | _ => .error .port
  | rest => .ok (none, rest)
where
  number (digits rest : List Char) : Except Fault (Option Nat × List Char) :=
    if digits.isEmpty then .ok (none, rest)
    else
      match Decimal.integer? Decimal.max16 digits with
      | .ok n => .ok (some n, rest)
      | .error _ => .error .port

def slashes (style : Style) (cs : List Char) : List Char :=
  cs.map fun c => if style.isSlash c then '/' else c

def pathAfter (style : Style) (cs : List Char) : List Char :=
  match slashes style (cs.takeWhile inPath) with
  | [] => if style.isPlain then [] else ['/']
  | '/' :: rest => resolve rest
  | rest => resolve rest

def ofLogin? (scheme : String) (style : Style) (l : Login) (after : List Char) :
    Except Fault Url := do
  let n := hostLength false l.rest
  let hostText := l.rest.take n
  let host ← host? style hostText
  let portText := l.rest.drop n
  if host.isNone && portText.head? = some ':' then throw .emptyHost
  let (port, more) ← port? portText
  if host.isNone && (l.username != "" || l.password.isSome) then throw .emptyHost
  let after := more ++ after
  return {
    scheme, host, username := l.username, password := l.password
    port := if style = .web (port.getD 0) then none else port
    path := String.ofList (pathAfter style after), query := query? (after.dropWhile inPath) }

def ofAuthority? (scheme : String) (style : Style) (cs : List Char) : Except Fault Url :=
  let authority := cs.takeWhile (!style.endsAuthority ·)
  let after := cs.dropWhile (!style.endsAuthority ·)
  if cutLast '@' authority = some ([], []) && !after.isEmpty then .error .emptyHost
  else ofLogin? scheme style (login authority) after

/-- The locator of a file: a host may follow two slashes, but no user and no port. -/
def ofFile? (cs : List Char) : Except Fault Url := do
  let located (host : Option String) (rest : List Char) : Url :=
    { scheme := "file", host, path := String.ofList (pathAfter .file rest)
      query := query? (rest.dropWhile inPath) }
  match slashes .file (cs.take 2) with
  | ['/', '/'] =>
    let rest := cs.drop 2
    let name := rest.takeWhile (!Style.endsAuthority .file ·)
    if isDrive name then return located none rest
    return located (← host? .file name) (rest.drop name.length)
  | _ => return located none cs

def ofText? (s : String) : Except Fault Url :=
  match scheme? (significant s) with
  | none => .error .noScheme
  | some (scheme, rest) =>
    let style := Style.ofScheme scheme
    match style, rest with
    | .web _, _ => ofAuthority? scheme style (rest.dropWhile style.isSlash)
    | .file, _ => ofFile? rest
    | .plain, '/' :: '/' :: rest => ofAuthority? scheme style rest
    | .plain, '/' :: rest =>
      .ok { scheme, path := String.ofList (resolve (rest.takeWhile inPath))
            query := query? (rest.dropWhile inPath) }
    | .plain, _ =>
      .ok { scheme, path := String.ofList (rest.takeWhile inPath)
            query := query? (rest.dropWhile inPath) }

end PgMetrics.Url
