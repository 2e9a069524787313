import PgMetrics.Statistics.Basic

/-! # Disk usage

The space that every relation, and every table with what belongs to it, takes up on disk.
-/
namespace PgMetrics.Statistics.DiskUsage

def relationsQuery : String :=
  "SELECT N.nspname::text AS schemaname, C.relname::text AS relname, " ++
    "pg_relation_size(C.oid)::float8 AS size_bytes " ++
    "FROM pg_class C LEFT JOIN pg_namespace N ON N.oid = C.relnamespace " ++
    "WHERE N.nspname NOT IN ('pg_catalog', 'information_schema') " ++
    "ORDER BY pg_relation_size(C.oid) DESC"

def tablesQuery : String :=
  "SELECT N.nspname::text AS schemaname, C.relname::text AS relname, " ++
    "pg_total_relation_size(C.oid)::float8 AS size_bytes " ++
    "FROM pg_class C LEFT JOIN pg_namespace N ON N.oid = C.relnamespace " ++
    "WHERE N.nspname NOT IN ('pg_catalog', 'information_schema') " ++
    "AND C.relkind <> 'i' AND N.nspname !~ '^pg_toast' " ++
    "ORDER BY pg_total_relation_size(C.oid) DESC"

def plan (name help : String) : Plan where
  labels := [("datname", .database), ("schemaname", .text "schemaname"),
    ("relname", .text "relname")]
  measures := [⟨"size_bytes", .gauge, name, help, .zero, 1⟩]

def relations : Plan :=
  plan "postgres_disk_usage_relation_bytes" "Bytes used on disk to store this relation"

def tables : Plan :=
  plan "postgres_disk_usage_table_bytes"
    "Bytes used on disk to store this table, including indexes and TOAST"

def statistic : Statistic := ⟨"disk_usage", [
  ⟨fun _ => some relationsQuery, fun d _ => relations.yield d⟩,
  ⟨fun _ => some tablesQuery, fun d _ => tables.yield d⟩]⟩

end PgMetrics.Statistics.DiskUsage
