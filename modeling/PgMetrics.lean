import PgMetrics.About
import PgMetrics.Activity
import PgMetrics.Cache
import PgMetrics.Catalog
import PgMetrics.CommandLine.Basic
import PgMetrics.CommandLine.Occurrence
import PgMetrics.CommandLine.Settings
import PgMetrics.CommandLine.Usage
import PgMetrics.Configuration
import PgMetrics.Decimal.Reading
import PgMetrics.Decimal.Shortest
import PgMetrics.Environment
import PgMetrics.Exposition.Declaration
import PgMetrics.Exposition.Family
import PgMetrics.Exposition.Registry
import PgMetrics.Exposition.Text
import PgMetrics.Failure
import PgMetrics.Gateway
import PgMetrics.Http.Message
import PgMetrics.Http.Route
import PgMetrics.Http.Trace
import PgMetrics.Main
import PgMetrics.NameList
import PgMetrics.Net.Address
import PgMetrics.Net.Listening
import PgMetrics.Net.Name
import PgMetrics.Observation
import PgMetrics.Process
import PgMetrics.Proofs.Activity.Run
import PgMetrics.Proofs.Cache.LastRun
import PgMetrics.Proofs.Decimal.ZeroSum
import PgMetrics.Proofs.Exposition.Registering
import PgMetrics.Proofs.Exposition.Series
import PgMetrics.Proofs.Scrape.Course
import PgMetrics.Proofs.Scraper.Run
import PgMetrics.Proofs.Service.Delivery
import PgMetrics.Rehearsal.Part
import PgMetrics.Rehearsal.Server
import PgMetrics.Rehearsal.Stage
import PgMetrics.Results.Datum
import PgMetrics.Results.Row
import PgMetrics.Scrape
import PgMetrics.Scraper
import PgMetrics.Selection
import PgMetrics.Service.Basic
import PgMetrics.Service.Http
import PgMetrics.Startup
import PgMetrics.Statistics.Archiver
import PgMetrics.Statistics.BackgroundWriter
import PgMetrics.Statistics.Basic
import PgMetrics.Statistics.Catalog
import PgMetrics.Statistics.Connections
import PgMetrics.Statistics.Databases
import PgMetrics.Statistics.DiskUsage
import PgMetrics.Statistics.Locks
import PgMetrics.Statistics.Recovery
import PgMetrics.Statistics.Replication
import PgMetrics.Statistics.UserIndexes
import PgMetrics.Statistics.UserTables
import PgMetrics.Statistics.VacuumProgress
import PgMetrics.Statistics.WalReceiver
import PgMetrics.Table
import PgMetrics.Target.Basic
import PgMetrics.Target.Dsn
import PgMetrics.Telemetry.Endpoint
import PgMetrics.Telemetry.Metadata
import PgMetrics.Telemetry.Startup
import PgMetrics.Text.Base64
import PgMetrics.Text.Blank
import PgMetrics.Text.Digit
import PgMetrics.Text.Fields
import PgMetrics.Text.Form
import PgMetrics.Text.Percent
import PgMetrics.Text.Printable
import PgMetrics.Text.Quoted
import PgMetrics.Text.Utf8
import PgMetrics.Url.Basic
import PgMetrics.Url.Host
import PgMetrics.Url.Path
import PgMetrics.Url.Reading
import PgMetrics.Verbosity
import PgMetrics.Version
import PgMetrics.Wire
import PgMetrics.Proofs.Activity.Limit
import PgMetrics.Proofs.Scrape.Invariant
import PgMetrics.Proofs.Service.History
import PgMetrics.Proofs.Scrape.Contents
import PgMetrics.Proofs.Exposition.Grouping
import PgMetrics.Proofs.Service.Signal
import PgMetrics.Proofs.Service.Deadline
import PgMetrics.Proofs.Scraper.Limited
import PgMetrics.Proofs.Cache.Pace
import PgMetrics.Proofs.Statistics.Schema
import PgMetrics.Proofs.Service.Rendering
import PgMetrics.Service.Traffic
import PgMetrics.Proofs.Activity.Path
import PgMetrics.Proofs.Scraper.Path
import PgMetrics.Proofs.Scrape.Connections
import PgMetrics.Proofs.Scrape.Along
import PgMetrics.Proofs.Scrape.Lines
import PgMetrics.Proofs.Service.Thread
import PgMetrics.Proofs.Service.Traffic
import PgMetrics.Proofs.Service.Discipline
import PgMetrics.Proofs.Cache.Refresh
import PgMetrics.Proofs.Scrape.Provenance
import PgMetrics.Proofs.Activity.Alike
import PgMetrics.Proofs.Scrape.Impartial
import PgMetrics.Proofs.Rehearsal.Impartial
import PgMetrics.Proofs.Service.Linear
import PgMetrics.Proofs.Scrape.Owners
import PgMetrics.Proofs.Scrape.Filtered
import PgMetrics.Proofs.Service.Request
import PgMetrics.Proofs.Service.Isolation
import PgMetrics.Proofs.Exposition.Faithful
import PgMetrics.Proofs.Exposition.Refusal
import PgMetrics.Proofs.Exposition.Arrangement
import PgMetrics.Proofs.Exposition.Genuine
import PgMetrics.Proofs.Decimal.Rounding
import PgMetrics.Proofs.Decimal.Mantissa
import PgMetrics.Proofs.Decimal.Doubles
import PgMetrics.Proofs.Decimal.Numeral
import PgMetrics.Proofs.Decimal.Legible
import PgMetrics.Proofs.Decimal.Spelling
import PgMetrics.Proofs.Version.Releases
import PgMetrics.Proofs.Text.Base64
import PgMetrics.Proofs.Telemetry.Orders
import PgMetrics.Proofs.Version.Grammar
import PgMetrics.Proofs.Decimal.DivOne
import PgMetrics.Proofs.Statistics.Rows
import PgMetrics.Proofs.Exposition.Tally
import PgMetrics.Proofs.Scrape.Exclusive
import PgMetrics.Proofs.Statistics.Standbys
import PgMetrics.Proofs.CommandLine.Steps
import PgMetrics.Proofs.CommandLine.Collectors
import PgMetrics.Proofs.Text.Fields
import PgMetrics.Proofs.Telemetry.ServerName
import PgMetrics.Proofs.Telemetry.Headers
import PgMetrics.Proofs.Http.Routing
import PgMetrics.Proofs.FirstSeen
import PgMetrics.Proofs.Exposition.Partition
import PgMetrics.Proofs.NameList
import PgMetrics.Proofs.CommandLine.Values
import PgMetrics.Proofs.CommandLine.Lists
