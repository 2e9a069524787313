import PgMetrics.Catalog
import PgMetrics.Exposition.Text
import PgMetrics.Process
import PgMetrics.Scrape

/-! # The scrape service

A service scrapes one server with a fixed set of scrapers.  A scrape that outlives its time is
dropped, and what it has observed until then is its result.  A request may name the scrapers to run;
the first name that is not served is refused before anything else happens.
-/
namespace PgMetrics

/-- What is scraped, with which scrapers, and for how long at most (in milliseconds). -/
structure Service (σ κ : Type) where
  gateway : Gateway σ κ
  target : Target
  scrapers : ScraperSet σ κ
  excluded : List String
  timeout : Nat
  /-- Metrics of the process itself, if they are exposed. -/
  process : Option ProcessReadings := none

inductive FilterFault where
  /-- A scraper of the catalog that this service does not run. -/
  | disabled (name : String)
  | missing (name : String)
  deriving Repr, DecidableEq

def FilterFault.message : FilterFault → String
  | .disabled name => s!"disabled scraper: {name}"
  | .missing name => s!"missing scraper: {name}"

namespace Service

variable {σ κ : Type}

/-- The first name of a filter that is not served. -/
def filterFault? (s : Service σ κ) : List String → Option FilterFault
  | [] => none
  | name :: rest =>
    if s.scrapers.contains name then s.filterFault? rest
    else if name ∈ Catalog.names then some (.disabled name)
    else some (.missing name)

/-- A scrape within its time; `none` if it was dropped. -/
def attempt (s : Service σ κ) (only : List String) : Activity (World σ) Event (Option Unit) :=
  (Scrape.collect s.gateway s.target s.scrapers s.excluded only).limit s.timeout

/-- The observations of a scrape, be it dropped or not; the connections it holds are dropped with
it. -/
def scrape (s : Service σ κ) (only : List String) :
    Activity (World σ) Event (List Observation) := do
  let (_, events) ← (s.attempt only).gather some
  .emitAll ((Event.held events).map .dropped)
  return events.filterMap Event.observation?

/-- The text for observations, together with the metrics of the process. -/
def exposition (s : Service σ κ) (observations : List Observation) : Except Failure String :=
  match Exposition.Registry.empty.registerAll observations with
  | (_, some (name, fault)) => .error (Exposition.familyFailure name fault)
  | (registry, none) =>
    match registry.registerMetrics ((s.process.map ProcessReadings.metrics).getD []) with
    | .error fault => .error ⟨fault.message, []⟩
    | .ok registry => .ok registry.text

def render (s : Service σ κ) (only : List String) :
    Activity (World σ) Event (Except Failure String) := do
  return s.exposition (← s.scrape only)

def ping (s : Service σ κ) : Activity (World σ) Event Verdict := do
  match ← Scrape.connect s.gateway 0 s.target with
  | .error failure => return .error failure
  | .ok session =>
    let verdict ← Scraper.asking (s.gateway.ping session.handle)
    Scrape.close s.gateway 0 session
    return verdict

def scrapeInTurn (s : Service σ κ) : List (List String) →
    Activity (World σ) Event (List (List Observation))
  | [] => return []
  | only :: rest => do
    let observations ← s.scrape only
    let more ← s.scrapeInTurn rest
    return observations :: more

end Service
end PgMetrics
