import PgMetrics.About
import PgMetrics.CommandLine.Settings

/-! # Help and messages of the command line

The help lists every option with its letter, its placeholder and an explanation on a line of its
own, to which the variable with its present value and the default are added.
-/
namespace PgMetrics.CommandLine

def purpose : String :=
  "PostgreSQL metric exporter for Prometheus with per-database scraping and result caching"

def Flag.heading (f : Flag) : String :=
  match f.letter? with
  | some c => "  -" ++ c.toString ++ ", " ++ f.shown
  | none => "      " ++ f.shown

/-- The variable of a setting, with its value unless that is secret. -/
def Setting.variableNote (env : Environment) (s : Setting) : String :=
  let name := s.text.variableName
  if s.text.secret then "[env: " ++ name ++ "]"
  else "[env: " ++ name ++ "=" ++ (env.get? name).getD "" ++ "]"

def Flag.help (env : Environment) : Flag → String
  | .setting s =>
    let note := match s.text.default with
      | some text => " [default: " ++ text ++ "]"
      | none => ""
    s.text.help ++ " " ++ s.variableNote env ++ note
  | .switch .verbose => "Increase verbosity, -vv for debug"
  | .switch (.collector name true) =>
    let enabled := (Catalog.enabledByDefault? name).getD false
    "Enable the " ++ name ++ " scraper [default: " ++
      (if enabled then "enabled" else "disabled") ++ "]"
  | .switch (.collector name false) => "Disable the " ++ name ++ " scraper"
  | .switch .help => "Print help"
  | .switch .version => "Print version"

def Flag.usage (env : Environment) (f : Flag) : String :=
  f.heading ++ "\n          " ++ f.help env ++ "\n"

def synopsis (about : About) : String := "Usage: " ++ about.name ++ " [OPTIONS]\n"

def helpText (about : About) (env : Environment) : String :=
  purpose ++ "\n\n" ++ synopsis about ++ "\nOptions:\n" ++
    String.join (Flag.all.map (Flag.usage env))

def versionText (about : About) (long : Bool) : String :=
  about.name ++ " " ++ (if long then about.commit else about.version) ++ "\n"

def Refusal.message : Refusal → String
  | .unknown text => "unexpected argument '" ++ text ++ "' found"
  | .unexpectedValue s text =>
    "unexpected value '" ++ text ++ "' for '" ++ (Flag.switch s).shown ++
      "' found; no more were expected"
  | .missingValue s =>
    "a value is required for '" ++ (Flag.setting s).shown ++ "' but none was supplied"
  | .badValue s text => "invalid value '" ++ text ++ "' for '" ++ (Flag.setting s).shown ++ "'"
  | .repeated f => "the argument '" ++ f.shown ++ "' cannot be used multiple times"

def refusalText (about : About) (r : Refusal) : String :=
  "error: " ++ r.message ++ "\n\n" ++ synopsis about ++
    "\nFor more information, try '--help'.\n"

end PgMetrics.CommandLine
