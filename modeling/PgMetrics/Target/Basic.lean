/-! # What to connect to

A `DataSource` says where a server listens and as whom to log in.  A `Target` adds the database that
the next connection opens, which changes while the databases of a server are walked.
-/
namespace PgMetrics

inductive SslMode where
  | disable
  | allow
  | prefer
  | require
  | verifyCa
  | verifyFull
  deriving Repr, DecidableEq

structure DataSource where
  host : String
  port : Nat
  socket : Option String
  username : String
  password : Option String
  database : Option String
  sslMode : SslMode
  applicationName : Option String
  options : Option String
  deriving Repr, DecidableEq

/-- A data source with the database to open. -/
structure Target where
  source : DataSource
  database : String
  deriving Repr, DecidableEq

namespace Target

/-- Without a database of its own, a data source means the one named like the user. -/
def ofSource (source : DataSource) : Target := ⟨source, source.database.getD source.username⟩

def withDatabase (t : Target) (database : String) : Target := { t with database }

def connection (t : Target) : DataSource := { t.source with database := some t.database }

end Target
end PgMetrics
