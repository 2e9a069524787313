import PgMetrics.Statistics.Basic

/-! # Recovery

Whether the server is a standby that replays its log.
-/
namespace PgMetrics.Statistics.Recovery

def query : String := "SELECT pg_is_in_recovery()"

def observation (inRecovery : Bool) : Observation :=
  ⟨.gauge, "postgres_in_recovery", [], if inRecovery then 1 else 0,
    "Whether recovery is still in progress (pg_is_in_recovery())."⟩

def read (rows : List Results.Row) : Yield :=
  match rows with
  | [] => .ofFault .noRow
  | row :: _ => Yield.ofExcept row.firstFlag fun b => ⟨[observation b], none⟩

def statistic : Statistic := ⟨"recovery", [⟨fun _ => some query, fun _ _ => read⟩]⟩

end PgMetrics.Statistics.Recovery
