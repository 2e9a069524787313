import PgMetrics.Text.Blank
import PgMetrics.Text.Digit
import PgMetrics.Decimal.Reading
import PgMetrics.Decimal.Shortest

/-! # Server versions

A server announces its version in free text such as `14.2 (Debian 14.2-1.pgdg110+1)`.  What counts
is the first word: if it consists of decimal digits in groups joined by single dots, its first two
groups are read as one decimal number, otherwise the version is zero.  So a capability check against
a positive threshold fails for every unreadable version.
-/
namespace PgMetrics

/-- `major.minor` as one number. -/
structure Version where
  number : Float
  deriving Repr, BEq

namespace Version

def zero : Version := ⟨0⟩

instance : Inhabited Version := ⟨zero⟩

/-- Reads groups of decimal digits joined by dots to the end; `owed` says that a digit must come. -/
def groupsFrom (owed : Bool) : List Char → Bool
  | [] => !owed
  | c :: rest =>
    if Text.isDecimal c then groupsFrom false rest
    else c == '.' && !owed && groupsFrom true rest

def isDotted (word : List Char) : Bool := groupsFrom true word

/-- The first group of a dotted word, and the second one if there is one. -/
def leadingGroups (word : List Char) : List Char × List Char :=
  (word.takeWhile Text.isDecimal,
    ((word.dropWhile Text.isDecimal).drop 1).takeWhile Text.isDecimal)

/-- The number a word stands for; digits other than the ASCII ones are not read. -/
def ofWord? (word : List Char) : Option Float :=
  if isDotted word then
    let (major, minor) := leadingGroups word
    Decimal.ofNumeral? major minor
  else none

def ofAnnouncement (raw : String) : Version :=
  match ofWord? (Text.firstWord raw.toList) with
  | some x => ⟨x⟩
  | none => zero

def reaches (v : Version) (threshold : Float) : Bool := threshold ≤ v.number

def order? (a b : Version) : Option Ordering :=
  if a.number < b.number then some .lt
  else if a.number == b.number then some .eq
  else if b.number < a.number then some .gt
  else none

def text (v : Version) : String := Decimal.text v.number

end Version
end PgMetrics
