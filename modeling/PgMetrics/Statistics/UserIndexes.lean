import PgMetrics.Statistics.Basic

/-! # User indexes

Use of every index of a database.
-/
namespace PgMetrics.Statistics.UserIndexes

def query : String :=
  "SELECT schemaname::text AS schemaname, relname::text AS relname, " ++
    "indexrelname::text AS indexname, idx_scan::float8 AS idx_scan, " ++
    "idx_tup_read::float8 AS idx_tup_read, idx_tup_fetch::float8 AS idx_tup_fetch " ++
    "FROM pg_stat_user_indexes " ++
    "WHERE schemaname <> 'information_schema' " ++
    "AND idx_tup_fetch IS NOT NULL " ++
    "ORDER BY schemaname, relname, indexrelname"

def measures : List Measure := [
  ⟨"idx_scan", .counter, "postgres_stat_user_indexes_scan_total",
    "Number of times this index has been scanned", .zero, 1⟩,
  ⟨"idx_tup_read", .counter, "postgres_stat_user_indexes_tuple_read_total",
    "Number of index entries returned by scans on this index", .zero, 1⟩,
  ⟨"idx_tup_fetch", .counter, "postgres_stat_user_indexes_tuple_fetch_total",
    "Number of live table rows fetched by simple index scans using this index", .zero, 1⟩]

def plan : Plan where
  labels := [("datname", .database), ("schemaname", .text "schemaname"),
    ("relname", .text "relname"), ("indexname", .text "indexname")]
  measures := measures

def statistic : Statistic :=
  ⟨"stat_user_indexes", [⟨fun _ => some query, fun d _ => plan.yield d⟩]⟩

end PgMetrics.Statistics.UserIndexes
