import PgMetrics.Statistics.Basic

/-! # Databases

Backends, rows, transactions, blocks and conflicts of every database.
-/
namespace PgMetrics.Statistics.Databases

def query : String :=
  "SELECT datname, numbackends::float8 AS numbackends, tup_returned::float8 AS tup_returned, " ++
    "tup_fetched::float8 AS tup_fetched, tup_inserted::float8 AS tup_inserted, " ++
    "tup_updated::float8 AS tup_updated, tup_deleted::float8 AS tup_deleted, " ++
    "xact_commit::float8 AS xact_commit, xact_rollback::float8 AS xact_rollback, " ++
    "blks_read::float8 AS blks_read, blks_hit::float8 AS blks_hit, " ++
    "conflicts::float8 AS conflicts, deadlocks::float8 AS deadlocks, " ++
    "temp_files::float8 AS temp_files, temp_bytes::float8 AS temp_bytes " ++
    "FROM pg_stat_database " ++
    "WHERE datname IS NOT NULL " ++
    "ORDER BY datname"

def measures : List Measure := [
  ⟨"numbackends", .gauge, "postgres_stat_database_numbackends",
    "Number of backends currently connected to this database", .zero, 1⟩,
  ⟨"tup_returned", .counter, "postgres_stat_database_tup_returned_total",
    "Number of rows returned by queries in this database", .zero, 1⟩,
  ⟨"tup_fetched", .counter, "postgres_stat_database_tup_fetched_total",
    "Number of rows fetched by queries in this database", .zero, 1⟩,
  ⟨"tup_inserted", .counter, "postgres_stat_database_tup_inserted_total",
    "Number of rows inserted by queries in this database", .zero, 1⟩,
  ⟨"tup_updated", .counter, "postgres_stat_database_tup_updated_total",
    "Number of rows updated by queries in this database", .zero, 1⟩,
  ⟨"tup_deleted", .counter, "postgres_stat_database_tup_deleted_total",
    "Number of rows deleted by queries in this database", .zero, 1⟩,
  ⟨"xact_commit", .counter, "postgres_stat_database_xact_commit_total",
    "Number of transactions in this database that have been committed", .zero, 1⟩,
  ⟨"xact_rollback", .counter, "postgres_stat_database_xact_rollback_total",
    "Number of transactions in this database that have been rolled back", .zero, 1⟩,
  ⟨"blks_read", .counter, "postgres_stat_database_blks_read_total",
    "Number of disk blocks read in this database", .zero, 1⟩,
  ⟨"blks_hit", .counter, "postgres_stat_database_blks_hit_total",
    "Number of times disk blocks were found already in the buffer cache", .zero, 1⟩,
  ⟨"conflicts", .counter, "postgres_stat_database_conflicts_total",
    "Number of queries canceled due to conflicts with recovery in this database", .zero, 1⟩,
  ⟨"deadlocks", .counter, "postgres_stat_database_deadlocks_total",
    "Number of deadlocks detected in this database", .zero, 1⟩,
  ⟨"temp_files", .counter, "postgres_stat_database_temp_files_total",
    "Number of temporary files created by queries in this database", .zero, 1⟩,
  ⟨"temp_bytes", .counter, "postgres_stat_database_temp_bytes_total",
    "Total amount of data written to temporary files by queries in this database", .zero, 1⟩]

def plan : Plan := { labels := [("datname", .text "datname")], measures }

def statistic : Statistic := ⟨"stat_database", [⟨fun _ => some query, fun d _ => plan.yield d⟩]⟩

end PgMetrics.Statistics.Databases
