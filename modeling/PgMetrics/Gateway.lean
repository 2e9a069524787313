import PgMetrics.Activity
import PgMetrics.Failure
import PgMetrics.Target.Basic

/-! # Reaching a server

A `Gateway` opens connections to a server whose state is `σ` and runs the queries that every scrape
needs; what it does may take time and leaves no events.  A `Session` is an open connection together
with the database it was opened for.
-/
namespace PgMetrics

/-- An open connection and the database it was opened for. -/
structure Session (κ : Type) where
  database : String
  handle : κ
  deriving Repr

abbrev Query (σ α : Type) := Activity σ Empty (Except Failure α)

structure Gateway (σ κ : Type) where
  open_ : Target → Query σ κ
  announcement : κ → Query σ String
  /-- The databases to walk, without the excluded ones. -/
  databases : κ → List String → Query σ (List String)
  ping : κ → Query σ Unit
  close : κ → Query σ Unit

def Gateway.connect {σ κ : Type} (g : Gateway σ κ) (target : Target) :
    Activity σ Empty (Except Failure (Session κ)) := do
  match ← g.open_ target with
  | .ok handle => return .ok ⟨target.database, handle⟩
  | .error failure => return .error failure

end PgMetrics
