import PgMetrics.Net.Name
import PgMetrics.Text.Blank

/-! # Where traces are sent

An endpoint without a scheme is taken to be encrypted.  For an encrypted endpoint, the name that the
other side must prove is the host.  Nothing can be sent to an endpoint that is not well formed or
whose name cannot be proven.
-/
namespace PgMetrics.Telemetry.Endpoint

def plainScheme : String := "http://"

def encryptedScheme : String := "https://"

/-- The endpoint with a scheme; slashes at its end are dropped if it had none. -/
def withScheme (endpoint : String) : String :=
  if endpoint.startsWith plainScheme || endpoint.startsWith encryptedScheme then endpoint
  else encryptedScheme ++ String.ofList (Text.dropEndWhile (· == '/') endpoint.toList)

def before (sep : Char) (cs : List Char) : List Char := cs.takeWhile (· != sep)

def serverName? (endpoint : String) : Option String :=
  if endpoint.startsWith encryptedScheme then
    match before ':' (before '/' (endpoint.toList.drop encryptedScheme.length)) with
    | [] => none
    | name => some (String.ofList name)
  else none

def authorityMarks : List Char := "!$&'()*+,-.;=_~".toList

/-- What has been seen of an authority: brackets, and what counts since the last `@` or `]`. -/
structure AuthorityState where
  colons : Nat := 0
  opened : Bool := false
  closed : Bool := false
  percent : Bool := false
  deriving Repr, DecidableEq

/-- The state after another character, if that may follow: there is at most one pair of brackets,
and no more than eight colons count at a time. -/
def AuthorityState.after? (a : AuthorityState) (c : Char) : Option AuthorityState :=
  match c with
  | ':' => if a.colons < 8 then some { a with colons := a.colons + 1 } else none
  | '[' => if a.percent || a.opened then none else some { a with opened := true }
  | ']' =>
    if a.opened && !a.closed then some { a with closed := true, colons := 0, percent := false }
    else none
  | '@' => some { a with colons := 0, percent := false }
  | '%' => some { a with percent := true }
  | c => if c.isAlphanum || authorityMarks.contains c then some a else none

/-- Whether an authority may end here: at most one colon is left for a port, and no host is
percent-encoded. -/
def AuthorityState.isEnd (a : AuthorityState) : Bool :=
  a.opened == a.closed && a.colons ≤ 1 && !a.percent

def isAuthority (cs : List Char) : Bool :=
  !cs.isEmpty && cs.getLast? != some '@' && (cs.foldlM AuthorityState.after? {}).any (·.isEnd)

def isPathChar (c : Char) : Bool :=
  0x21 ≤ c.toNat && ['#', '<', '>', '?', '\x60'].all (c != ·)

def isQueryChar (c : Char) : Bool := 0x21 ≤ c.toNat && ['"', '#', '<', '>'].all (c != ·)

/-- Whether a text may follow an authority: a path, perhaps a query, and any fragment. -/
def isPathAndQuery (cs : List Char) : Bool :=
  match Text.cut '?' (before '#' cs) with
  | some (path, query) => path.all isPathChar && query.all isQueryChar
  | none => (before '#' cs).all isPathChar

def endsAuthority (c : Char) : Bool := c == '/' || c == '?' || c == '#'

def maxLength : Nat := 65534

def isWellFormed (endpoint : String) : Bool :=
  let scheme := if endpoint.startsWith encryptedScheme then encryptedScheme else plainScheme
  let rest := endpoint.toList.drop scheme.length
  endpoint.utf8ByteSize ≤ maxLength && isAuthority (rest.takeWhile (!endsAuthority ·)) &&
    isPathAndQuery (rest.dropWhile (!endsAuthority ·))

inductive Fault where
  | malformed (endpoint : String)
  /-- Its name is none that the other side could prove. -/
  | name
  deriving Repr, DecidableEq

def Fault.message : Fault → String
  | .malformed endpoint => s!"invalid URI {endpoint}. Reason invalid URI"
  | .name => "Reason: transport error"

def Fault.find? (endpoint : String) : Option Fault :=
  if !isWellFormed endpoint then some (.malformed endpoint)
  else if (serverName? endpoint).any fun name => !Net.isProvable name.toList then some .name
  else none

end PgMetrics.Telemetry.Endpoint
