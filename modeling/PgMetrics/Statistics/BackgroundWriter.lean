import PgMetrics.Statistics.Basic

/-! # The background writer and the checkpointer

What has been written by checkpoints, by the background writer and by backends.  Since version 17
the checkpointer has a view of its own.  A column that the server no longer has is absent and
skipped.
-/
namespace PgMetrics.Statistics.BackgroundWriter

def newQuery : String :=
  "SELECT c.num_timed::float8 AS checkpoints_timed, c.num_requested::float8 AS " ++
    "checkpoints_req, c.write_time::float8 AS checkpoint_write_time, " ++
    "c.sync_time::float8 AS checkpoint_sync_time, c.buffers_written::float8 AS " ++
    "buffers_checkpoint, b.buffers_clean::float8 AS buffers_clean, " ++
    "b.maxwritten_clean::float8 AS maxwritten_clean, NULL::float8 AS buffers_backend, " ++
    "NULL::float8 AS buffers_backend_fsync, b.buffers_alloc::float8 AS buffers_alloc, " ++
    "EXTRACT(EPOCH FROM b.stats_reset)::float8 AS stats_reset " ++
    "FROM pg_stat_bgwriter b " ++
    "CROSS JOIN pg_stat_checkpointer c"

def oldQuery : String :=
  "SELECT checkpoints_timed::float8 AS checkpoints_timed, checkpoints_req::float8 AS " ++
    "checkpoints_req, checkpoint_write_time::float8 AS checkpoint_write_time, " ++
    "checkpoint_sync_time::float8 AS checkpoint_sync_time, buffers_checkpoint::float8 AS " ++
    "buffers_checkpoint, buffers_clean::float8 AS buffers_clean, " ++
    "maxwritten_clean::float8 AS maxwritten_clean, buffers_backend::float8 AS buffers_backend, " ++
    "buffers_backend_fsync::float8 AS buffers_backend_fsync, buffers_alloc::float8 AS " ++
    "buffers_alloc, EXTRACT(EPOCH FROM stats_reset)::float8 AS stats_reset " ++
    "FROM pg_stat_bgwriter"

def query (v : Version) : String := if v.reaches 17 then newQuery else oldQuery

/-- Times are reported in milliseconds and exposed in seconds. -/
def measures : List Measure := [
  ⟨"checkpoints_timed", .counter, "postgres_stat_bgwriter_checkpoints_timed_total",
    "Number of scheduled checkpoints that have been performed", .skipped, 1⟩,
  ⟨"checkpoints_req", .counter, "postgres_stat_bgwriter_checkpoints_req_total",
    "Number of requested checkpoints that have been performed", .skipped, 1⟩,
  ⟨"checkpoint_write_time", .counter, "postgres_stat_bgwriter_checkpoint_write_time_seconds_total",
    "Time spent writing checkpoint files to disk, in seconds", .skipped, 1000⟩,
  ⟨"checkpoint_sync_time", .counter, "postgres_stat_bgwriter_checkpoint_sync_time_seconds_total",
    "Time spent synchronizing checkpoint files to disk, in seconds", .skipped, 1000⟩,
  ⟨"buffers_checkpoint", .counter, "postgres_stat_bgwriter_buffers_checkpoint_total",
    "Number of buffers written during checkpoints", .skipped, 1⟩,
  ⟨"buffers_clean", .counter, "postgres_stat_bgwriter_buffers_clean_total",
    "Number of buffers written by the background writer", .skipped, 1⟩,
  ⟨"maxwritten_clean", .counter, "postgres_stat_bgwriter_maxwritten_clean_total",
    "Number of times the background writer stopped a cleaning scan because it " ++
      "had written too many buffers", .skipped, 1⟩,
  ⟨"buffers_backend", .counter, "postgres_stat_bgwriter_buffers_backend_total",
    "Number of buffers written directly by a backend", .skipped, 1⟩,
  ⟨"buffers_backend_fsync", .counter, "postgres_stat_bgwriter_buffers_backend_fsync_total",
    "Number of times a backend had to execute its own fsync call", .skipped, 1⟩,
  ⟨"buffers_alloc", .counter, "postgres_stat_bgwriter_buffers_alloc_total",
    "Number of buffers allocated", .skipped, 1⟩,
  ⟨"stats_reset", .gauge, "postgres_stat_bgwriter_stats_reset_timestamp",
    "Time at which these statistics were last reset", .skipped, 1⟩]

def plan : Plan := { measures }

def statistic : Statistic :=
  ⟨"stat_bgwriter", [⟨fun v => some (query v), fun d _ => plan.firstYield d⟩]⟩

end PgMetrics.Statistics.BackgroundWriter
