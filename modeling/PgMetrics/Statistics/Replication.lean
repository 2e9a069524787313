import PgMetrics.Statistics.Basic

/-! # Replication

How far every standby is behind, in bytes and in seconds.  The times are absent after a period of
inactivity and before version 10.
-/
namespace PgMetrics.Statistics.Replication

def newQuery : String :=
  "WITH replication AS ( " ++
    "SELECT application_name, client_addr, state, sync_state, " ++
    "(CASE WHEN pg_is_in_recovery() THEN pg_wal_lsn_diff(pg_last_wal_receive_lsn(), " ++
    "replay_lsn) ELSE pg_wal_lsn_diff(pg_current_wal_lsn(), replay_lsn) END)::float8 AS " ++
    "lag_bytes, EXTRACT(EPOCH FROM write_lag)::float8 AS write_lag_seconds, " ++
    "EXTRACT(EPOCH FROM flush_lag)::float8 AS flush_lag_seconds, " ++
    "EXTRACT(EPOCH FROM replay_lag)::float8 AS replay_lag_seconds " ++
    "FROM pg_stat_replication ) " ++
    "SELECT * FROM replication " ++
    "WHERE lag_bytes IS NOT NULL"

def oldQuery : String :=
  "WITH replication AS ( " ++
    "SELECT application_name, client_addr, state, sync_state, " ++
    "(CASE WHEN pg_is_in_recovery() THEN pg_xlog_location_diff(pg_last_xlog_receive_location(), " ++
    "replay_location) ELSE pg_xlog_location_diff(pg_current_xlog_location(), " ++
    "replay_location) END)::float8 AS lag_bytes, NULL::float8 AS write_lag_seconds, " ++
    "NULL::float8 AS flush_lag_seconds, NULL::float8 AS replay_lag_seconds " ++
    "FROM pg_stat_replication ) " ++
    "SELECT * FROM replication " ++
    "WHERE lag_bytes IS NOT NULL"

def query (v : Version) : String := if v.reaches 10 then newQuery else oldQuery

def measures : List Measure := [
  ⟨"lag_bytes", .gauge, "postgres_stat_replication_lag_bytes",
    "Replication delay in bytes between the current WAL position and the standby " ++
      "replay position", .faulty, 1⟩,
  ⟨"write_lag_seconds", .gauge, "postgres_stat_replication_write_lag_seconds",
    "write_lag as reported by pg_stat_replication, in seconds", .skipped, 1⟩,
  ⟨"flush_lag_seconds", .gauge, "postgres_stat_replication_flush_lag_seconds",
    "flush_lag as reported by pg_stat_replication, in seconds", .skipped, 1⟩,
  ⟨"replay_lag_seconds", .gauge, "postgres_stat_replication_replay_lag_seconds",
    "replay_lag as reported by pg_stat_replication, in seconds", .skipped, 1⟩]

def plan : Plan where
  labels := [("application_name", .text "application_name"),
    ("client_addr", .address "client_addr"), ("state", .text "state"),
    ("sync_state", .text "sync_state")]
  measures := measures

def statistic : Statistic :=
  ⟨"stat_replication", [⟨fun v => some (query v), fun d _ => plan.yield d⟩]⟩

end PgMetrics.Statistics.Replication
