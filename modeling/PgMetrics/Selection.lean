import PgMetrics.Statistics.Catalog

/-! # Which scrapers run

A selection names the scrapers to run and those to run behind a cache.  Names outside the catalog
have no effect, and a time to live of zero turns caching off.
-/
namespace PgMetrics

/-- The scrapers to run; the time to live of what is cached is in milliseconds. -/
structure Selection where
  enabled : List String := []
  cached : List String := []
  ttl : Nat := 300000
  deriving Repr, DecidableEq

namespace Selection

/-- Everything that is enabled by default, with the sizes on disk cached. -/
def standard : Selection where
  enabled := (catalog.filter (·.enabledByDefault)).map (·.name)
  cached := ["disk_usage"]

def isEnabled (s : Selection) (name : String) : Bool := s.enabled.contains name

def isCached (s : Selection) (name : String) : Bool := s.ttl != 0 && s.cached.contains name

variable {σ κ : Type}

def scraper (s : Selection) (wire : Wire σ κ) (entry : CatalogEntry)
    (statistic : Statistics.Statistic) (slot : Nat) : Scraper σ κ :=
  let inner := Scraper.direct (statistic.source wire entry.enabledByDefault)
  if s.isCached entry.name then .cached slot s.ttl inner else inner

def scrapersIn (s : Selection) (wire : Wire σ κ) (scope : Scope) : List (Scraper σ κ) :=
  (Statistics.numbered.filter fun e => e.1.1.scope = scope && s.isEnabled e.1.1.name).map
    fun e => s.scraper wire e.1.1 e.1.2 e.2

def scrapers (s : Selection) (wire : Wire σ κ) : ScraperSet σ κ :=
  ⟨s.scrapersIn wire .server, s.scrapersIn wire .database⟩

theorem exists_of_mem_all {s : Selection} {wire : Wire σ κ} {r : Scraper σ κ}
    (h : r ∈ (s.scrapers wire).all) :
    ∃ e ∈ Statistics.numbered, s.scraper wire e.1.1 e.1.2 e.2 = r := by
  rcases List.mem_append.mp h with h | h
  all_goals
    obtain ⟨e, he, heq⟩ := List.mem_map.mp h
    exact ⟨e, (List.mem_filter.mp he).1, heq⟩

end Selection
end PgMetrics
