/-! # Locators

A locator names a scheme and, for most schemes, a host with a user and a port; then comes a path and
perhaps a query.  User, password, path and query are kept as they are written, so bytes in them may
be percent-encoded; the host is kept in its normal form.
-/
namespace PgMetrics

/-- The parts of a locator that this library has a use for; a fragment is dropped. -/
structure Url where
  scheme : String
  username : String := ""
  password : Option String := none
  host : Option String := none
  port : Option Nat := none
  path : String
  query : Option String
  deriving Repr, DecidableEq

namespace Url

inductive Fault where
  | noScheme
  | emptyHost
  | hostCharacter
  | domainName
  | addressV4
  | addressV6
  | port
  deriving Repr, DecidableEq

def Fault.message : Fault → String
  | .noScheme => "relative URL without a base"
  | .emptyHost => "empty host"
  | .hostCharacter => "invalid domain character"
  | .domainName => "invalid international domain name"
  | .addressV4 => "invalid IPv4 address"
  | .addressV6 => "invalid IPv6 address"
  | .port => "invalid port number"

/-- How a locator of some scheme is read.  The schemes of the web treat a backslash as a slash,
need a host and know their usual port; files have neither user nor port. -/
inductive Style where
  | web (port : Nat)
  | file
  | plain
  deriving Repr, DecidableEq

def Style.ofScheme : String → Style
  | "http" => .web 80
  | "ws" => .web 80
  | "https" => .web 443
  | "wss" => .web 443
  | "ftp" => .web 21
  | "file" => .file
  | _ => .plain

def Style.isPlain : Style → Bool
  | .plain => true
  | _ => false

def Style.isSlash (style : Style) (c : Char) : Bool := c == '/' || (c == '\\' && !style.isPlain)

def Style.endsAuthority (style : Style) (c : Char) : Bool :=
  style.isSlash c || c == '?' || c == '#'

end Url
end PgMetrics
