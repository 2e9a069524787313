import PgMetrics.Statistics.Basic

/-! # Connections

The number of connections in each state, and since when the oldest backend runs and for how long the
oldest transaction, query and snapshot have.
-/
namespace PgMetrics.Statistics.Connections

def connectionsQuery : String :=
  "WITH states AS ( SELECT datname, unnest(ARRAY[ 'active', " ++
    "'idle', 'idle in transaction', 'idle in transaction (aborted)', " ++
    "'fastpath function call', 'disabled' ]) AS state " ++
    "FROM pg_database WHERE datallowconn ) " ++
    "SELECT s.datname, s.state, COALESCE(a.count, 0)::float8 AS count " ++
    "FROM states s LEFT JOIN ( " ++
    "SELECT datname, state, COUNT(*) AS count " ++
    "FROM pg_stat_activity " ++
    "GROUP BY datname, state ) a USING (datname, state) " ++
    "ORDER BY s.datname, s.state"

def oldestQuery : String :=
  "SELECT (SELECT EXTRACT(EPOCH FROM MIN(backend_start))::float8 " ++
    "FROM pg_stat_activity) AS oldest_backend, " ++
    "(SELECT EXTRACT(EPOCH FROM age(clock_timestamp(), COALESCE(MIN(xact_start), " ++
    "clock_timestamp())))::float8 " ++
    "FROM pg_stat_activity " ++
    "WHERE state IN ('idle in transaction', 'active') " ++
    "AND backend_xid IS NOT NULL) AS oldest_xact, " ++
    "(SELECT EXTRACT(EPOCH FROM age(clock_timestamp(), COALESCE(MIN(query_start), " ++
    "clock_timestamp())))::float8 " ++
    "FROM pg_stat_activity " ++
    "WHERE state = 'active') AS oldest_active, " ++
    "(SELECT EXTRACT(EPOCH FROM age(clock_timestamp(), COALESCE(MIN(query_start), " ++
    "clock_timestamp())))::float8 " ++
    "FROM pg_stat_activity " ++
    "WHERE backend_xmin IS NOT NULL) AS oldest_snapshot"

def connections : Plan where
  labels := [("datname", .text "datname"), ("state", .text "state")]
  measures := [⟨"count", .gauge, "postgres_stat_activity_connections",
    "Number of current connections in their current state", .faulty, 1⟩]

/-- Without any backend there is no oldest one; the other ages are zero then. -/
def oldest : Plan where
  measures := [
    ⟨"oldest_backend", .gauge, "postgres_stat_activity_oldest_backend_timestamp",
      "The oldest backend started timestamp", .skipped, 1⟩,
    ⟨"oldest_xact", .gauge, "postgres_stat_activity_oldest_xact_seconds",
      "The oldest transaction (active or idle in transaction)", .zero, 1⟩,
    ⟨"oldest_active", .gauge, "postgres_stat_activity_oldest_query_active_seconds",
      "The oldest query in running state (long query)", .zero, 1⟩,
    ⟨"oldest_snapshot", .gauge, "postgres_stat_activity_oldest_snapshot_seconds",
      "The oldest query snapshot", .zero, 1⟩]

def statistic : Statistic := ⟨"stat_activity", [
  ⟨fun _ => some connectionsQuery, fun d _ => connections.yield d⟩,
  ⟨fun _ => some oldestQuery, fun d _ => oldest.firstYield d⟩]⟩

end PgMetrics.Statistics.Connections
