import PgMetrics.CommandLine.Occurrence
import PgMetrics.Decimal.Reading
import PgMetrics.Environment
import PgMetrics.NameList
import PgMetrics.Table

/-! # What was asked for

Occurrences are acted upon in their order.  A setting that is no list may occur once; so may a
switch of a scraper, unless the opposite one came in between: then the later one counts.  A setting
that does not occur takes its value from its environment variable, if that is set.
-/
namespace PgMetrics.CommandLine

structure Settings where
  port : Option Nat := none
  listen : Option String := none
  metricsPath : Option String := none
  dsn : Option String := none
  excludedDatabases : Option (List String) := none
  cachedScrapers : Option (List String) := none
  cacheTtl : Option Nat := none
  scrapeTimeout : Option Nat := none
  connectTimeout : Option Nat := none
  verbosity : Nat := 0
  collectors : Table String Bool := .empty
  deriving Repr, BEq

inductive Stop where
  | help
  /-- The version is asked for, or the commit with the long name of the switch. -/
  | version (long : Bool)
  | refused (r : Refusal)
  deriving Repr, DecidableEq

def port? (text : String) : Option Nat :=
  match text.toList with
  | '-' :: rest => (Decimal.natural? rest).filter (· = 0)
  | cs => (Decimal.integer? Decimal.max16 cs).toOption

/-- A number of seconds, at least `least`. -/
def seconds? (least : Nat) (text : String) : Option Nat :=
  (Decimal.integer? Decimal.max64 text.toList).toOption.filter (least ≤ ·)

def maxVerbosity : Nat := 255

namespace Settings

def has (given : Settings) : Setting → Bool
  | .port => given.port.isSome
  | .listen => given.listen.isSome
  | .metricsPath => given.metricsPath.isSome
  | .dsn => given.dsn.isSome
  | .excludedDatabases => given.excludedDatabases.isSome
  | .cachedScrapers => given.cachedScrapers.isSome
  | .cacheTtl => given.cacheTtl.isSome
  | .scrapeTimeout => given.scrapeTimeout.isSome
  | .connectTimeout => given.connectTimeout.isSome

def addNames (names : Option (List String)) (text : String) : Option (List String) :=
  some (names.getD [] ++ NameList.splitCommas text)

/-- The settings with a value for one, if the text is a value for it; lists grow. -/
def put? (given : Settings) (s : Setting) (text : String) : Option Settings :=
  match s with
  | .port => (port? text).map fun n => { given with port := some n }
  | .listen => some { given with listen := some text }
  | .metricsPath => some { given with metricsPath := some text }
  | .dsn => some { given with dsn := some text }
  | .excludedDatabases =>
    some { given with excludedDatabases := addNames given.excludedDatabases text }
  | .cachedScrapers =>
    some { given with cachedScrapers := addNames given.cachedScrapers text }
  | .cacheTtl => (seconds? 0 text).map fun n => { given with cacheTtl := some n }
  | .scrapeTimeout => (seconds? 1 text).map fun n => { given with scrapeTimeout := some n }
  | .connectTimeout => (seconds? 1 text).map fun n => { given with connectTimeout := some n }

def put (given : Settings) (s : Setting) (text : String) : Except Stop Settings :=
  match given.put? s text with
  | some given => .ok given
  | none => .error (.refused (.badValue s text))

def act (given : Settings) : Occurrence → Except Stop Settings
  | .missing s => .error (.refused (.missingValue s))
  | .value s text _ =>
    if given.has s && !s.isList then .error (.refused (.repeated (.setting s)))
    else given.put s text
  | .switch .help _ => .error .help
  | .switch .version long => .error (.version long)
  | .switch .verbose _ => .ok { given with verbosity := min maxVerbosity (given.verbosity + 1) }
  | .switch (.collector name on) _ =>
    if given.collectors.get? name = some on then
      .error (.refused (.repeated (.switch (.collector name on))))
    else .ok { given with collectors := given.collectors.put name on }

/-- The settings after occurrences, up to the first that stops. -/
def actAll (given : Settings) : List Occurrence → Except Stop Settings
  | [] => .ok given
  | o :: rest =>
    match given.act o with
    | .ok given => given.actAll rest
    | .error stop => .error stop

/-- The settings with the variables of those that were not given. -/
def complete (env : Environment) (given : Settings) : List Setting → Except Stop Settings
  | [] => .ok given
  | s :: rest =>
    if given.has s then given.complete env rest
    else
      match env.get? s.text.variableName with
      | none => given.complete env rest
      | some text =>
        match given.put s text with
        | .ok given => given.complete env rest
        | .error stop => .error stop

def ofArguments? (env : Environment) (args : List String) : Except Stop Settings :=
  let r := Reading.ofArguments args
  match actAll {} r.occurrences, r.refusal with
  | .error stop, _ => .error stop
  | .ok _, some refusal => .error (.refused refusal)
  | .ok given, none => given.complete env Setting.all

def enabledScrapers (given : Settings) : List String :=
  (catalog.filter fun e => (given.collectors.get? e.name).getD e.enabledByDefault).map (·.name)

theorem actAll_append (given : Settings) (xs ys : List Occurrence) :
    given.actAll (xs ++ ys) =
      match given.actAll xs with
      | .ok given => given.actAll ys
      | .error stop => .error stop := by
  induction xs generalizing given with
  | nil => rfl
  | cons o rest ih =>
    simp only [List.cons_append, actAll]
    cases given.act o with
    | ok given => exact ih given
    | error stop => rfl

end Settings
end PgMetrics.CommandLine
