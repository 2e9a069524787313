import PgMetrics.Statistics.Basic

/-! # User tables

Scans, rows and maintenance of every user table of a database.  A table that has never been vacuumed
or analyzed has no time for it.
-/
namespace PgMetrics.Statistics.UserTables

def query : String :=
  "SELECT schemaname::text AS schemaname, relname::text AS relname, " ++
    "seq_scan::float8 AS seq_scan, idx_scan::float8 AS idx_scan, " ++
    "n_live_tup::float8 AS n_live_tup, n_dead_tup::float8 AS n_dead_tup, " ++
    "EXTRACT(EPOCH FROM last_vacuum)::float8 AS last_vacuum, EXTRACT(EPOCH FROM " ++
    "last_autovacuum)::float8 AS last_autovacuum, EXTRACT(EPOCH FROM last_analyze)::float8 AS " ++
    "last_analyze, EXTRACT(EPOCH FROM last_autoanalyze)::float8 AS last_autoanalyze " ++
    "FROM pg_stat_user_tables " ++
    "ORDER BY schemaname, relname"

def measures : List Measure := [
  ⟨"seq_scan", .counter, "postgres_stat_user_tables_seq_scan_total",
    "Number of sequential scans initiated on this table", .skipped, 1⟩,
  ⟨"idx_scan", .counter, "postgres_stat_user_tables_idx_scan_total",
    "Number of index scans initiated on this table", .skipped, 1⟩,
  ⟨"n_live_tup", .gauge, "postgres_stat_user_tables_n_live_tup",
    "Estimated number of live rows", .skipped, 1⟩,
  ⟨"n_dead_tup", .gauge, "postgres_stat_user_tables_n_dead_tup",
    "Estimated number of dead rows", .skipped, 1⟩,
  ⟨"last_vacuum", .gauge, "postgres_stat_user_tables_last_vacuum_timestamp",
    "Last time at which this table was manually vacuumed", .skipped, 1⟩,
  ⟨"last_autovacuum", .gauge, "postgres_stat_user_tables_last_autovacuum_timestamp",
    "Last time at which this table was vacuumed by the autovacuum daemon", .skipped, 1⟩,
  ⟨"last_analyze", .gauge, "postgres_stat_user_tables_last_analyze_timestamp",
    "Last time at which this table was manually analyzed", .skipped, 1⟩,
  ⟨"last_autoanalyze", .gauge, "postgres_stat_user_tables_last_autoanalyze_timestamp",
    "Last time at which this table was analyzed by the autovacuum daemon", .skipped, 1⟩]

def plan : Plan where
  labels := [("datname", .database), ("schemaname", .text "schemaname"),
    ("relname", .text "relname")]
  measures := measures

def statistic : Statistic :=
  ⟨"stat_user_tables", [⟨fun _ => some query, fun d _ => plan.yield d⟩]⟩

end PgMetrics.Statistics.UserTables
