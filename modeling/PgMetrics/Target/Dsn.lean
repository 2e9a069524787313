import PgMetrics.Environment
import PgMetrics.Failure
import PgMetrics.Target.Basic
import PgMetrics.Text.Form
import PgMetrics.Text.Quoted
import PgMetrics.Url.Reading

/-! # Data source names

A data source name is a locator of any scheme.  It starts from what the environment says, then host,
port, user, password and path apply, then the pairs of the query in their order.  An absolute path
in place of a host names a socket.  Pairs with an unknown name have no effect.
-/
namespace PgMetrics

def SslMode.ofText? (s : String) : Option SslMode :=
  match s.toLower with
  | "disable" => some .disable
  | "allow" => some .allow
  | "prefer" => some .prefer
  | "require" => some .require
  | "verify-ca" => some .verifyCa
  | "verify-full" => some .verifyFull
  | _ => none

namespace DataSource

inductive Fault where
  | url (fault : Url.Fault)
  | encoding (fault : Text.Utf8.Fault)
  | integer (fault : Decimal.IntegerFault)
  | address
  | sslMode (value : String)
  deriving Repr, DecidableEq

def Fault.message : Fault → String
  | .url fault => fault.message
  | .encoding fault => fault.message
  | .integer fault => fault.message
  | .address => "invalid IP address syntax"
  | .sslMode value => "unknown value " ++ Text.quoted value ++ " for `ssl_mode`"

def Fault.failure (f : Fault) : Failure :=
  let configured (causes : List String) : List String :=
    ("error with configuration: " ++ causes.headD "") :: causes
  let causes := configured [f.message]
  ⟨"Failed to parse DSN", match f with
    | .sslMode _ => configured causes
    | _ => causes⟩

def integer? (max : Nat) (s : String) : Except Fault Nat :=
  (Decimal.integer? max s.toList).mapError .integer

def decoded? (s : String) : Except Fault String := (Text.Percent.decode? s).mapError .encoding

/-- What the environment says about a server; a port or a mode that cannot be read is ignored. -/
def ofEnvironment (env : Environment) : DataSource where
  host := ((env.get? "PGHOSTADDR").or (env.get? "PGHOST")).getD "localhost"
  port := ((env.get? "PGPORT").bind fun s => (integer? Decimal.max16 s).toOption).getD 5432
  socket := none
  username := ((env.get? "PGUSER").or (env.get? "USER")).getD ""
  password := env.get? "PGPASSWORD"
  database := env.get? "PGDATABASE"
  sslMode := ((env.get? "PGSSLMODE").bind SslMode.ofText?).getD .prefer
  applicationName := env.get? "PGAPPNAME"
  options := env.get? "PGOPTIONS"

/-- The host as a locator writes it; if a slash comes first once it is decoded, a socket. -/
def withHost (d : DataSource) (host : String) : Except Fault DataSource :=
  match Text.Percent.decode (Text.Utf8.encode host) with
  | 0x2F :: _ => (decoded? host).map fun path => { d with socket := some path }
  | _ => .ok { d with host }

def withOptions (d : DataSource) (more : String) : DataSource :=
  { d with options := some (match d.options with
    | some options => options ++ " " ++ more
    | none => more) }

def escapeOption (s : String) : String :=
  String.ofList (s.toList.flatMap fun c => if c == ' ' || c == '\\' then ['\\', c] else [c])

def withSetting (d : DataSource) (name value : String) : DataSource :=
  let setting := "-c " ++ escapeOption name ++ "=" ++ escapeOption value
  match d.options with
  | none => { d with options := some setting }
  | some "" => { d with options := some setting }
  | some options => { d with options := some (options ++ " " ++ setting) }

/-- The setting named by `options[setting]`. -/
def settingName? (name : String) : Option String :=
  match name.toList.drop "options[".length |>.reverse with
  | ']' :: setting =>
    if name.startsWith "options[" then some (String.ofList setting.reverse) else none
  | _ => none

def withParameter (d : DataSource) (name value : String) : Except Fault DataSource :=
  match name with
  | "sslmode" => sslMode
  | "ssl-mode" => sslMode
  | "statement-cache-capacity" => (integer? Decimal.max64 value).map fun _ => d
  | "host" =>
    .ok (if value.startsWith "/" then { d with socket := some value } else { d with host := value })
  | "hostaddr" =>
    if (Net.Address.ofText? value.toList).isSome then .ok { d with host := value }
    else .error .address
  | "port" => (integer? Decimal.max16 value).map fun port => { d with port }
  | "dbname" => .ok { d with database := some value }
  | "user" => .ok { d with username := value }
  | "password" => .ok { d with password := some value }
  | "application_name" => .ok { d with applicationName := some value }
  | "options" => .ok (d.withOptions value)
  | _ =>
    match settingName? name with
    | some setting => .ok (d.withSetting setting value)
    | none => .ok d
where
  sslMode : Except Fault DataSource :=
    match SslMode.ofText? value with
    | some mode => .ok { d with sslMode := mode }
    | none => .error (.sslMode value)

def withParameters (d : DataSource) : List (String × String) → Except Fault DataSource
  | [] => .ok d
  | (name, value) :: rest =>
    match d.withParameter name value with
    | .ok d => d.withParameters rest
    | .error fault => .error fault

def withUrl (d : DataSource) (url : Url) : Except Fault DataSource := do
  let d ← match url.host with
    | some host => d.withHost host
    | none => .ok d
  let d := { d with port := url.port.getD d.port }
  let d ← if url.username = "" then .ok d
    else (decoded? url.username).map fun username => { d with username }
  let d ← match url.password with
    | some password => (decoded? password).map fun password => { d with password := some password }
    | none => .ok d
  let path := String.ofList (url.path.toList.dropWhile (· == '/'))
  let d ← if path = "" then .ok d
    else (decoded? path).map fun database => { d with database := some database }
  d.withParameters (Text.Form.pairs (url.query.getD ""))

def ofDsn? (env : Environment) (dsn : String) : Except Fault DataSource :=
  match Url.ofText? dsn with
  | .ok url => (ofEnvironment env).withUrl url
  | .error fault => .error (.url fault)

end DataSource

namespace Target

def applicationName : String := "postgres_exporter"

def ofDsn? (env : Environment) (dsn : String) : Except Failure Target :=
  match DataSource.ofDsn? env dsn with
  | .ok d => .ok (ofSource { d with applicationName := some applicationName })
  | .error fault => .error fault.failure

def summary (t : Target) : String :=
  let source := t.source
  "ScrapeTarget \x7b host: " ++ Text.quoted source.host ++ ", port: " ++ toString source.port ++
    ", username: " ++ Text.quoted source.username ++ ", database: " ++ Text.quoted t.database ++
    ", .. \x7d"

end Target
end PgMetrics
