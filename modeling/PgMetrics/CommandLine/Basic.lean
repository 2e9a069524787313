import PgMetrics.Catalog

/-! # Options of the command line

A setting takes a value, which may also come from an environment variable; a switch takes none.
Every option has a long name, some have a letter too.
-/
namespace PgMetrics.CommandLine

inductive Setting where
  | port
  | listen
  | metricsPath
  | dsn
  | excludedDatabases
  | cachedScrapers
  | cacheTtl
  | scrapeTimeout
  | connectTimeout
  deriving Repr, DecidableEq

structure SettingText where
  name : String
  letter : Option Char := none
  placeholder : String
  help : String
  variableName : String
  /-- Whether the value of the variable is left out of the help. -/
  secret : Bool := false
  default : Option String := none

namespace Setting

def all : List Setting :=
  [.port, .listen, .metricsPath, .dsn, .excludedDatabases, .cachedScrapers, .cacheTtl,
    .scrapeTimeout, .connectTimeout]

def text : Setting → SettingText
  | .port => {
      name := "port", letter := some 'p', placeholder := "port"
      help := "Port to listen on"
      variableName := "POSTGRES_EXPORTER_PORT", default := some "9187" }
  | .listen => {
      name := "listen", letter := some 'l', placeholder := "IP"
      help := "IP address to bind to, both IPv6 and IPv4 when omitted"
      variableName := "POSTGRES_EXPORTER_LISTEN" }
  | .metricsPath => {
      name := "metrics-path", placeholder := "PATH"
      help := "Path under which metrics are exposed"
      variableName := "POSTGRES_EXPORTER_METRICS_PATH", default := some "/metrics" }
  | .dsn => {
      name := "dsn", placeholder := "DSN"
      help := "Database connection string"
      variableName := "POSTGRES_EXPORTER_DSN", secret := true
      default := some "postgresql://postgres@localhost:5432/postgres" }
  | .excludedDatabases => {
      name := "exclude-databases", placeholder := "template0,template1,..."
      help := "Comma-separated list of databases to skip in per-database scrapers"
      variableName := "POSTGRES_EXPORTER_EXCLUDE_DATABASES" }
  | .cachedScrapers => {
      name := "cached-scrapers", placeholder := "disk_usage,..."
      help := "Comma-separated list of scrapers served through the result cache"
      variableName := "POSTGRES_EXPORTER_CACHED_SCRAPERS", default := some "disk_usage" }
  | .cacheTtl => {
      name := "cache-ttl", placeholder := "cache-ttl"
      help := "Seconds a cached scraper result stays fresh, 0 disables caching"
      variableName := "POSTGRES_EXPORTER_CACHE_TTL", default := some "300" }
  | .scrapeTimeout => {
      name := "scrape-timeout", placeholder := "scrape-timeout"
      help := "Seconds a single scrape may take before partial results are served"
      variableName := "POSTGRES_EXPORTER_SCRAPE_TIMEOUT", default := some "30" }
  | .connectTimeout => {
      name := "connect-timeout", placeholder := "connect-timeout"
      help := "Seconds to wait when opening a database connection"
      variableName := "POSTGRES_EXPORTER_CONNECT_TIMEOUT", default := some "5" }

/-- Whether values add up; any other setting is given at most once. -/
def isList (s : Setting) : Bool := s = .excludedDatabases || s = .cachedScrapers

end Setting

inductive Switch where
  | verbose
  | collector (name : String) (on : Bool)
  | help
  | version
  deriving Repr, DecidableEq

namespace Switch

def name : Switch → String
  | .verbose => "verbose"
  | .collector name true => "collector." ++ name
  | .collector name false => "no-collector." ++ name
  | .help => "help"
  | .version => "version"

def letter? : Switch → Option Char
  | .verbose => some 'v'
  | .collector _ _ => none
  | .help => some 'h'
  | .version => some 'V'

end Switch

inductive Flag where
  | setting (s : Setting)
  | switch (s : Switch)
  deriving Repr, DecidableEq

namespace Flag

def collectors : List Flag :=
  catalog.flatMap fun e => [.switch (.collector e.name true), .switch (.collector e.name false)]

def all : List Flag :=
  Setting.all.map .setting ++ .switch .verbose :: collectors ++ [.switch .help, .switch .version]

def name : Flag → String
  | .setting s => s.text.name
  | .switch s => s.name

def letter? : Flag → Option Char
  | .setting s => s.text.letter
  | .switch s => s.letter?

/-- The option as messages show it: a setting with its placeholder, a repeatable switch with dots. -/
def shown (f : Flag) : String :=
  "--" ++ f.name ++ match f with
    | .setting s => " <" ++ s.text.placeholder ++ ">"
    | .switch .verbose => "..."
    | .switch _ => ""

def ofName? (name : String) : Option Flag := all.find? (·.name == name)

def ofLetter? (c : Char) : Option Flag := all.find? (·.letter? == some c)

theorem names_nodup : (all.map name).Nodup := by decide +kernel

end Flag
end PgMetrics.CommandLine
