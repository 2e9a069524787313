/-! # The scrapers there are

Every scraper has a name, runs once for the server or in every database, and is enabled by default
or not.  Their order here is the order in which they run.
-/
namespace PgMetrics

inductive Scope where
  | server
  | database
  deriving Repr, DecidableEq

structure CatalogEntry where
  name : String
  scope : Scope
  enabledByDefault : Bool := true
  deriving Repr, DecidableEq

def catalog : List CatalogEntry := [
  ⟨"recovery", .server, true⟩,
  ⟨"locks", .server, true⟩,
  ⟨"stat_activity", .server, true⟩,
  ⟨"stat_archiver", .server, true⟩,
  ⟨"stat_bgwriter", .server, true⟩,
  ⟨"stat_database", .server, true⟩,
  ⟨"stat_replication", .server, true⟩,
  ⟨"wal_receiver", .server, true⟩,
  ⟨"stat_vacuum_progress", .database, true⟩,
  ⟨"stat_user_tables", .database, false⟩,
  ⟨"stat_user_indexes", .database, true⟩,
  ⟨"disk_usage", .database, true⟩]

namespace Catalog

def names : List String := catalog.map (·.name)

def namesIn (scope : Scope) : List String :=
  (catalog.filter fun e => e.scope = scope).map (·.name)

def enabledByDefault? (name : String) : Option Bool :=
  (catalog.find? fun e => e.name = name).map (·.enabledByDefault)

theorem names_nodup : names.Nodup := by decide

end Catalog
end PgMetrics
