import PgMetrics.Scraper

/-! # One scrape

A scrape opens a connection to the target's database, reads the server's version, lists its
databases, runs the global scrapers on that connection and the others on one connection for each
database, one database at a time.  It always reports whether the server is up, and the duration and
the success of every run.  A scraper that fails stops nothing; a connection that cannot be opened
and a version or a list that cannot be read end the scrape.
-/
namespace PgMetrics.Scrape

def up (value : Float) : Observation :=
  ⟨.gauge, "postgres_up", [], value, "Whether the Postgres server is up."⟩

def info (v : Version) : Observation :=
  ⟨.gauge, "postgres_info", [("version", v.text)], 1, "Postgres version and distribution."⟩

def runLabels (scraper database : String) : List (String × String) :=
  [("scraper", scraper), ("datname", database)]

/-- Milliseconds in seconds: the whole ones, to which the rest is added in nanoseconds. -/
def seconds (span : Nat) : Float :=
  (span / 1000).toFloat + (span % 1000 * 1000000).toFloat / 1000000000

def duration (scraper database : String) (span : Nat) : Observation :=
  ⟨.gauge, "postgres_exporter_scraper_duration_seconds", runLabels scraper database,
    seconds span, "Duration of a scraper run in seconds."⟩

def success (scraper database : String) (verdict : Verdict) : Observation :=
  ⟨.gauge, "postgres_exporter_scraper_success", runLabels scraper database,
    match verdict with
    | .ok _ => 1
    | .error _ => 0,
    "Whether the scraper run succeeded (1) or failed (0)."⟩

variable {σ κ : Type}

/-- Whether a filter admits a scraper; the empty filter admits all. -/
def selected (only : List String) (s : Scraper σ κ) : Bool :=
  only.isEmpty || only.contains s.baseName

def segment (s : Scraper σ κ) (session : Session κ) (version : Version) :
    Activity (World σ) Event Unit := do
  let start ← .now
  let verdict ← s.run session version
  let stop ← .now
  .emit (.observed (duration s.name session.database (stop - start)))
  .emit (.observed (success s.name session.database verdict))

def segments (session : Session κ) (version : Version) :
    List (Scraper σ κ) → Activity (World σ) Event Unit
  | [] => return ()
  | s :: rest => do
    segment s session version
    segments session version rest

/-- Gives a connection back; that this may fail changes nothing. -/
def close (g : Gateway σ κ) (number : Nat) (session : Session κ) :
    Activity (World σ) Event Unit := do
  .emit (.closed number)
  let _ ← Scraper.asking (g.close session.handle)
  return ()

def connect (g : Gateway σ κ) (number : Nat) (target : Target) :
    Activity (World σ) Event (Except Failure (Session κ)) := do
  .emit (.requested target.database)
  match ← Scraper.asking (g.connect target) with
  | .ok session =>
    .emit (.opened number target.database)
    return .ok session
  | .error failure => return .error failure

def walk (g : Gateway σ κ) (target : Target) (version : Version) (scrapers : List (Scraper σ κ))
    (number : Nat) : List String → Activity (World σ) Event Unit
  | [] => return ()
  | database :: rest => do
    match ← connect g number (target.withDatabase database) with
    | .error _ => return ()
    | .ok session =>
      segments session version scrapers
      close g number session
      walk g target version scrapers (number + 1) rest

/-- What is done while the first connection is open. -/
def onServer (g : Gateway σ κ) (target : Target) (set : ScraperSet σ κ)
    (excluded only : List String) (session : Session κ) : Activity (World σ) Event Unit := do
  match ← Scraper.asking (g.announcement session.handle) with
  | .error _ => return ()
  | .ok raw =>
    let version := Version.ofAnnouncement raw
    .emit (.observed (info version))
    match ← Scraper.asking (g.databases session.handle excluded) with
    | .error _ => return ()
    | .ok databases =>
      segments session version (set.global.filter (selected only))
      walk g target version (set.perDatabase.filter (selected only)) 1 databases

def collect (g : Gateway σ κ) (target : Target) (set : ScraperSet σ κ)
    (excluded only : List String) : Activity (World σ) Event Unit := do
  match ← connect g 0 target with
  | .error _ => .emit (.observed (up 0))
  | .ok session =>
    .emit (.observed (up 1))
    onServer g target set excluded only session
    close g 0 session

end PgMetrics.Scrape
