import PgMetrics.Cache
import PgMetrics.Gateway
import PgMetrics.Version

/-! # Scrapers

A `Source` turns queries on one connection into observations.  A `Scraper` is a source, possibly
behind caches: it is selected by the name of its source, however often it is wrapped.

A run of a cached scraper either repeats the observations of a fresh entry, which always succeeds,
or runs what it wraps, hands its observations on when that run has returned, and stores them, also
after a failure.  While such a run lasts its observations are made but do not reach the result.
-/
namespace PgMetrics

abbrev Verdict := Except Failure Unit

structure Source (σ κ : Type) where
  name : String
  enabledByDefault : Bool := true
  run : Session κ → Version → Activity σ Observation Verdict

/-- What scrapes read and change: the server and the caches. -/
structure World (σ : Type) where
  server : σ
  caches : Caches := .empty
  deriving Repr

inductive Event where
  | requested (database : String)
  /-- The connection of that number, counted within the scrape, is open. -/
  | opened (number : Nat) (database : String)
  | closed (number : Nat)
  /-- The connection of that number goes with the scrape that held it. -/
  | dropped (number : Nat)
  | started (source database : String) (time : Nat)
  | made (o : Observation)
  | observed (o : Observation)
  deriving Repr, BEq

def Event.observation? : Event → Option Observation
  | .observed o => some o
  | _ => none

/-- The connections held after an event, if those before it are `held`. -/
def Event.holding (held : List Nat) : Event → List Nat
  | .opened number _ => held ++ [number]
  | .closed number => held.erase number
  | .dropped number => held.erase number
  | _ => held

def Event.held (events : List Event) : List Nat := events.foldl Event.holding []

/-- What an observation of a source comes to: it is made, and it reaches the result. -/
def Event.ofSource (o : Observation) : List Event := [.made o, .observed o]

/-- The same event behind a cache, where nothing reaches the result. -/
def Event.withhold : Event → List Event
  | .observed _ => []
  | e => [e]

/-- A source, possibly behind caches. -/
inductive Scraper (σ κ : Type) where
  | direct (source : Source σ κ)
  /-- Remembers runs for `ttl` milliseconds in the cache of number `slot`. -/
  | cached (slot ttl : Nat) (inner : Scraper σ κ)

namespace Scraper

variable {σ κ : Type}

def source : Scraper σ κ → Source σ κ
  | .direct s => s
  | .cached _ _ inner => inner.source

def baseName (s : Scraper σ κ) : String := s.source.name

def name : Scraper σ κ → String
  | .direct s => s.name
  | .cached _ _ inner => "cached_" ++ inner.name

def enabledByDefault (s : Scraper σ κ) : Bool := s.source.enabledByDefault

def onServer {ω α : Type} (a : Activity σ ω α) : Activity (World σ) ω α :=
  a.within World.server fun s w => { w with server := s }

def asking {α : Type} (q : Query σ α) : Activity (World σ) Event (Except Failure α) :=
  onServer (q.mapEvents fun e => nomatch e)

def remembered (slot ttl : Nat) (database : String) :
    Activity (World σ) Event (Option (List Observation)) :=
  .ask fun now w => ((w.caches.cache slot).fresh? ttl now database, w)

def remember (slot : Nat) (database : String) (e : CacheEntry) : Activity (World σ) Event Unit :=
  .modify fun w => { w with caches := w.caches.store slot database e }

def run (s : Scraper σ κ) (session : Session κ) (version : Version) :
    Activity (World σ) Event Verdict :=
  match s with
  | .direct source => do
    .emit (.started source.name session.database (← .now))
    onServer ((source.run session version).flatMapEvents Event.ofSource)
  | .cached slot ttl inner => do
    match ← remembered slot ttl session.database with
    | some observations =>
      .emitAll (observations.map .observed)
      return .ok ()
    | none =>
      let start ← .now
      let (verdict, observations) ← ((inner.run session version).gather
        Event.observation?).flatMapEvents Event.withhold
      .emitAll (observations.map .observed)
      remember slot session.database ⟨start, observations⟩
      return verdict

end Scraper

structure ScraperSet (σ κ : Type) where
  global : List (Scraper σ κ) := []
  perDatabase : List (Scraper σ κ) := []

namespace ScraperSet

variable {σ κ : Type}

def all (set : ScraperSet σ κ) : List (Scraper σ κ) := set.global ++ set.perDatabase

def names (set : ScraperSet σ κ) : List String := set.all.map Scraper.name

/-- Whether a source of that name is in the set, cached or not. -/
def contains (set : ScraperSet σ κ) (name : String) : Bool := set.all.any (·.baseName == name)

end ScraperSet
end PgMetrics
