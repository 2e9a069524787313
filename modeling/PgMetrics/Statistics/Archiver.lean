import PgMetrics.Statistics.Basic

/-! # The archiver

How many log files have been archived and how many attempts have failed.  Both counts are read
before anything is made of them.
-/
namespace PgMetrics.Statistics.Archiver

def query : String :=
  "SELECT archived_count::float8 AS archived_count, failed_count::float8 AS failed_count, " ++
    "EXTRACT(EPOCH FROM stats_reset)::float8 AS stats_reset " ++
    "FROM pg_stat_archiver"

def archived : Measure :=
  ⟨"archived_count", .counter, "postgres_stat_archiver_archived_total",
    "Number of WAL files that have been successfully archived", .faulty, 1⟩

def failed : Measure :=
  ⟨"failed_count", .counter, "postgres_stat_archiver_failed_total",
    "Number of failed attempts for archiving WAL files", .faulty, 1⟩

def statsReset : Measure :=
  ⟨"stats_reset", .gauge, "postgres_stat_archiver_stats_reset_timestamp",
    "Time at which these statistics were last reset", .skipped, 1⟩

/-- The counts of a row, then the time of their reset if there was one. -/
def rowYield (row : Results.Row) : Yield :=
  Yield.ofExcept (row.number archived.column) fun a =>
    Yield.ofExcept (row.number failed.column) fun f =>
      Yield.andThen ⟨[archived.observation [] a, failed.observation [] f], none⟩
        (statsReset.yield [] row)

def read (rows : List Results.Row) : Yield :=
  match rows with
  | [] => .ofFault .noRow
  | row :: _ => rowYield row

def statistic : Statistic := ⟨"stat_archiver", [⟨fun _ => some query, fun _ _ => read⟩]⟩

end PgMetrics.Statistics.Archiver
