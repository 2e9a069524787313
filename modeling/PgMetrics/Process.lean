import PgMetrics.Exposition.Registry

/-! # The exporter's own process

What is exposed about the process that serves the metrics.
-/
namespace PgMetrics

/-- Readings of the process: times in seconds, sizes in bytes. -/
structure ProcessReadings where
  cpuSeconds : Float := 0
  cpuCores : Float := 0
  residentBytes : Float := 0
  virtualBytes : Float := 0
  openFiles : Float := 0
  threads : Float := 0
  startSeconds : Float := 0
  deriving Repr

open Exposition in
def plainMetric (kind : Kind) (name help : String) (value : Float) : Metric :=
  (Metric.new ⟨name, help, kind, []⟩).set [] value

def ProcessReadings.metrics (r : ProcessReadings) : List Exposition.Metric := [
  plainMetric .counter "postgres_exporter_process_cpu_seconds_total"
    "Total user and system CPU time spent in seconds (cumulative across all cores)" r.cpuSeconds,
  plainMetric .gauge "postgres_exporter_process_cpu_cores"
    "Number of CPU cores available to the system" r.cpuCores,
  plainMetric .gauge "postgres_exporter_process_resident_memory_bytes"
    "Resident memory size in bytes (RSS)" r.residentBytes,
  plainMetric .gauge "postgres_exporter_process_virtual_memory_bytes"
    "Virtual memory size in bytes (VSZ)" r.virtualBytes,
  plainMetric .gauge "postgres_exporter_process_open_fds"
    "Number of open file descriptors" r.openFiles,
  plainMetric .gauge "postgres_exporter_process_threads"
    "Number of OS threads in the process" r.threads,
  plainMetric .gauge "postgres_exporter_process_start_time_seconds"
    "Start time of the process since unix epoch in seconds" r.startSeconds]

end PgMetrics
