import PgMetrics.Observation
import PgMetrics.Table

/-! # Remembered observations

A cache holds, for each database, what the latest run of a scraper made there and when that run
started.  An entry is fresh until its age, counted from the start of its run, exceeds the time to
live; entries are replaced and never removed.
-/
namespace PgMetrics

/-- What a run made, and when it started. -/
structure CacheEntry where
  start : Nat
  observations : List Observation
  deriving Repr, BEq

def CacheEntry.fresh (ttl now : Nat) (e : CacheEntry) : Bool := now - e.start ≤ ttl

/-- The latest entry of each database. -/
abbrev Cache := Table String CacheEntry

/-- The observations to serve for a database without a new run, if there are fresh ones. -/
def Cache.fresh? (c : Cache) (ttl now : Nat) (database : String) : Option (List Observation) :=
  match c.get? database with
  | some e => if e.fresh ttl now then some e.observations else none
  | none => none

abbrev Caches := Table Nat Cache

def Caches.cache (cs : Caches) (slot : Nat) : Cache := (cs.get? slot).getD .empty

def Caches.store (cs : Caches) (slot : Nat) (database : String) (e : CacheEntry) : Caches :=
  cs.put slot ((cs.cache slot).put database e)

@[simp] theorem Caches.cache_store_self (cs : Caches) (slot : Nat) (d : String) (e : CacheEntry) :
    (cs.store slot d e).cache slot = (cs.cache slot).put d e := by
  simp [Caches.cache, Caches.store]

theorem Caches.cache_store_of_ne (cs : Caches) {slot other : Nat} (d : String) (e : CacheEntry)
    (h : other ≠ slot) : (cs.store slot d e).cache other = cs.cache other := by
  simp [Caches.cache, Caches.store, Table.get?_put_of_ne _ _ h]

end PgMetrics
