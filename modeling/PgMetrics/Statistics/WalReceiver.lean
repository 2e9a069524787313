import PgMetrics.Statistics.Basic

/-! # The log receiver

How far the replay on a standby is behind; there is no such view before version 10.
-/
namespace PgMetrics.Statistics.WalReceiver

def query : String :=
  "WITH receiver AS ( SELECT status, (CASE WHEN pg_last_wal_receive_lsn() = " ++
    "pg_last_wal_replay_lsn() THEN 0 ELSE EXTRACT(EPOCH FROM now() - " ++
    "pg_last_xact_replay_timestamp()) END)::float8 AS replay_lag " ++
    "FROM pg_stat_wal_receiver ) " ++
    "SELECT * FROM receiver " ++
    "WHERE replay_lag IS NOT NULL"

def plan : Plan where
  labels := [("status", .text "status")]
  measures := [⟨"replay_lag", .gauge, "postgres_wal_receiver_replay_lag_seconds",
    "Delay in standby WAL replay, now() - pg_last_xact_replay_timestamp()", .faulty, 1⟩]

def statistic : Statistic := ⟨"wal_receiver",
  [⟨fun v => if v.reaches 10 then some query else none, fun d _ => plan.yield d⟩]⟩

end PgMetrics.Statistics.WalReceiver
