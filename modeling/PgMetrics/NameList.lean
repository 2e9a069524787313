import PgMetrics.Text.Blank
import PgMetrics.Text.Fields

/-! # Lists of names

Names given by a user are trimmed, empty ones are dropped, and of equal ones the first is kept.
-/
namespace PgMetrics.NameList

/-- The list with a name added at its end, unless the name is blank or already there. -/
def add (names : List String) (name : String) : List String :=
  let name := Text.trim name
  if name = "" ∨ name ∈ names then names else names ++ [name]

/-- The distinct names of a list that are not blank, trimmed, in the order of first occurrence. -/
def tidy (names : List String) : List String := names.foldl add []

def splitCommas (s : String) : List String := (Text.fields ',' s.toList).map String.ofList

theorem tidy_append (xs ys : List String) : tidy (xs ++ ys) = ys.foldl add (tidy xs) := by
  simp [tidy, List.foldl_append]

end PgMetrics.NameList
