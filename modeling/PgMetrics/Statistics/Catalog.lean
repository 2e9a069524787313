import PgMetrics.Catalog
import PgMetrics.Statistics.Archiver
import PgMetrics.Statistics.BackgroundWriter
import PgMetrics.Statistics.Connections
import PgMetrics.Statistics.Databases
import PgMetrics.Statistics.DiskUsage
import PgMetrics.Statistics.Locks
import PgMetrics.Statistics.Recovery
import PgMetrics.Statistics.Replication
import PgMetrics.Statistics.UserIndexes
import PgMetrics.Statistics.UserTables
import PgMetrics.Statistics.VacuumProgress
import PgMetrics.Statistics.WalReceiver

/-! # The statistics behind the catalog

Every scraper of the catalog runs one statistic of the same name.
-/
namespace PgMetrics.Statistics

def all : List Statistic := [
  Recovery.statistic, Locks.statistic, Connections.statistic, Archiver.statistic,
  BackgroundWriter.statistic, Databases.statistic, Replication.statistic, WalReceiver.statistic,
  VacuumProgress.statistic, UserTables.statistic, UserIndexes.statistic, DiskUsage.statistic]

def numbered : List ((CatalogEntry × Statistic) × Nat) := (catalog.zip all).zipIdx

def find? (name : String) : Option Statistic := all.find? (·.name == name)

theorem names_all : all.map Statistic.name = Catalog.names := by decide

end PgMetrics.Statistics
