/-! # Environment variables -/
namespace PgMetrics

/-- The variables that are set, by name; of two entries for a name the first counts. -/
abbrev Environment := List (String × String)

def Environment.get? (env : Environment) (name : String) : Option String := env.lookup name

end PgMetrics
