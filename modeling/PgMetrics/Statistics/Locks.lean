import PgMetrics.Statistics.Basic

/-! # Locks

The number of locks by database, type, mode, and whether they are granted.
-/
namespace PgMetrics.Statistics.Locks

def query : String :=
  "SELECT d.datname, l.locktype, l.mode, l.granted, COUNT(*)::float8 AS count " ++
    "FROM pg_locks l JOIN pg_database d ON l.database = d.oid " ++
    "GROUP BY d.datname, l.locktype, l.mode, l.granted " ++
    "ORDER BY d.datname, l.locktype, l.mode, l.granted"

def plan : Plan where
  labels := [("datname", .text "datname"), ("locktype", .text "locktype"), ("mode", .text "mode"),
    ("granted", .flag "granted")]
  measures := [⟨"count", .gauge, "postgres_locks_count",
    "Number of locks by datname, locktype, mode and granted", .faulty, 1⟩]

def statistic : Statistic := ⟨"locks", [⟨fun _ => some query, fun d _ => plan.yield d⟩]⟩

end PgMetrics.Statistics.Locks
