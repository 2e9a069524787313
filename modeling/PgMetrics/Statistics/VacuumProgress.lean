import PgMetrics.Statistics.Basic

/-! # Vacuum progress

How far every running vacuum has got.  The view exists since version 9.6; since version 17 dead rows
are measured in bytes.
-/
namespace PgMetrics.Statistics.VacuumProgress

def newQuery : String :=
  "SELECT V.pid::text AS pid, V.datname::text AS datname, T.schemaname::text AS schemaname, " ++
    "T.relname::text AS relname, A.query_start::text AS query_start, " ++
    "V.phase, V.heap_blks_total::float8 AS heap_blks_total, V.heap_blks_scanned::float8 AS " ++
    "heap_blks_scanned, V.heap_blks_vacuumed::float8 AS heap_blks_vacuumed, " ++
    "V.index_vacuum_count::float8 AS index_vacuum_count, V.max_dead_tuple_bytes::float8 AS " ++
    "max_dead, V.dead_tuple_bytes::float8 AS num_dead " ++
    "FROM pg_stat_progress_vacuum AS V " ++
    "JOIN pg_stat_activity A ON A.pid = V.pid " ++
    "JOIN pg_stat_all_tables AS T ON T.relid = V.relid " ++
    "WHERE V.datname = current_database()"

def oldQuery : String :=
  "SELECT V.pid::text AS pid, V.datname::text AS datname, T.schemaname::text AS schemaname, " ++
    "T.relname::text AS relname, A.query_start::text AS query_start, " ++
    "V.phase, V.heap_blks_total::float8 AS heap_blks_total, V.heap_blks_scanned::float8 AS " ++
    "heap_blks_scanned, V.heap_blks_vacuumed::float8 AS heap_blks_vacuumed, " ++
    "V.index_vacuum_count::float8 AS index_vacuum_count, V.max_dead_tuples::float8 AS max_dead, " ++
    "V.num_dead_tuples::float8 AS num_dead " ++
    "FROM pg_stat_progress_vacuum AS V " ++
    "JOIN pg_stat_activity A ON A.pid = V.pid " ++
    "JOIN pg_stat_all_tables AS T ON T.relid = V.relid " ++
    "WHERE V.datname = current_database()"

def query? (v : Version) : Option String :=
  if !v.reaches 9.6 then none
  else if v.reaches 17 then some newQuery
  else some oldQuery

def phaseMetric? : String → Option (String × String)
  | "initializing" => some ("postgres_stat_vacuum_progress_phase_initializing",
    "VACUUM is preparing to begin scanning the heap")
  | "scanning heap" => some ("postgres_stat_vacuum_progress_phase_scanning_heap",
    "VACUUM is currently scanning the heap")
  | "vacuuming indexes" => some ("postgres_stat_vacuum_progress_phase_vacuuming_indexes",
    "VACUUM is currently vacuuming the indexes")
  | "vacuuming heap" => some ("postgres_stat_vacuum_progress_phase_vacuuming_heap",
    "VACUUM is currently vacuuming the heap")
  | "cleaning up indexes" => some ("postgres_stat_vacuum_progress_phase_cleaning_up_indexes",
    "VACUUM is currently cleaning up indexes")
  | "truncating heap" => some ("postgres_stat_vacuum_progress_phase_truncating_heap",
    "VACUUM is currently truncating the heap")
  | "performing final cleanup" => some (
    "postgres_stat_vacuum_progress_phase_performing_final_cleanup",
    "VACUUM is performing final cleanup")
  | _ => none

/-- A vacuum is running, and in one phase if that is a known one. -/
def marks (phase : String) : Marks :=
  ("postgres_stat_vacuum_progress_running", "VACUUM is running") :: (phaseMetric? phase).toList

def blocks : List Measure := [
  ⟨"heap_blks_total", .gauge, "postgres_stat_vacuum_progress_heap_blks_total",
    "Total number of heap blocks in the table", .zero, 1⟩,
  ⟨"heap_blks_scanned", .gauge, "postgres_stat_vacuum_progress_heap_blks_scanned",
    "Number of heap blocks scanned", .zero, 1⟩,
  ⟨"heap_blks_vacuumed", .gauge, "postgres_stat_vacuum_progress_heap_blks_vacuumed",
    "Number of heap blocks vacuumed", .zero, 1⟩,
  ⟨"index_vacuum_count", .gauge, "postgres_stat_vacuum_progress_index_vacuum_count",
    "Number of completed index vacuum cycles", .zero, 1⟩]

def newDead : List Measure := [
  ⟨"max_dead", .gauge, "postgres_stat_vacuum_progress_max_dead_tuple_bytes",
    "Amount of dead tuple data that can be stored before an index vacuum cycle, " ++
      "in bytes", .zero, 1⟩,
  ⟨"num_dead", .gauge, "postgres_stat_vacuum_progress_dead_tuple_bytes",
    "Amount of dead tuple data collected since the last index vacuum cycle, in " ++
      "bytes", .zero, 1⟩]

def oldDead : List Measure := [
  ⟨"max_dead", .gauge, "postgres_stat_vacuum_progress_max_dead_tuples",
    "Number of dead tuples that can be stored before an index vacuum cycle", .zero, 1⟩,
  ⟨"num_dead", .gauge, "postgres_stat_vacuum_progress_num_dead_tuples",
    "Number of dead tuples collected since the last index vacuum cycle", .zero, 1⟩]

def plan (v : Version) : Plan where
  labels := [("pid", .text "pid"), ("query_start", .text "query_start"),
    ("schemaname", .text "schemaname"), ("datname", .text "datname"), ("relname", .text "relname")]
  marks := some ("phase", marks)
  measures := blocks ++ if v.reaches 17 then newDead else oldDead

def statistic : Statistic :=
  ⟨"stat_vacuum_progress", [⟨query?, fun d v => (plan v).yield d⟩]⟩

end PgMetrics.Statistics.VacuumProgress
