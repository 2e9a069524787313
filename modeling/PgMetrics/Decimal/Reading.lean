/-! # Reading decimal numbers

`digitValue?` and `natural?` read plain ASCII digits; `ofNumeral` gives the double nearest to a
decimal numeral.  `integer?` reads a bounded unsigned integer as a command line or an address
writes it and says what is wrong with it.
-/
namespace PgMetrics.Decimal

def digitValue? (c : Char) : Option Nat := if c.isDigit then some (c.toNat - 0x30) else none

/-- The number that the ASCII digits spell after `acc`. -/
def naturalFrom (acc : Nat) : List Char → Option Nat
  | [] => some acc
  | c :: rest =>
    match digitValue? c with
    | some d => naturalFrom (acc * 10 + d) rest
    | none => none

def natural? : List Char → Option Nat
  | [] => none
  | cs => naturalFrom 0 cs

/-- The double nearest to `whole.fraction`, infinite where that is too large. -/
def ofNumeral? (whole fraction : List Char) : Option Float :=
  (natural? (whole ++ fraction)).map fun n => Float.ofScientific n true fraction.length

inductive IntegerFault where
  | empty
  | invalidDigit
  | tooLarge
  deriving Repr, DecidableEq

def IntegerFault.message : IntegerFault → String
  | .empty => "cannot parse integer from empty string"
  | .invalidDigit => "invalid digit found in string"
  | .tooLarge => "number too large to fit in target type"

def max16 : Nat := 0xFFFF

def max64 : Nat := 0xFFFFFFFFFFFFFFFF

/-- Digits read from the left: the first fault met decides, be it a strange character or a value
that has grown beyond `max`. -/
def boundedFrom (max acc : Nat) : List Char → Except IntegerFault Nat
  | [] => .ok acc
  | c :: rest =>
    match digitValue? c with
    | none => .error .invalidDigit
    | some d => if max < acc * 10 + d then .error .tooLarge else boundedFrom max (acc * 10 + d) rest

def integer? (max : Nat) : List Char → Except IntegerFault Nat
  | [] => .error .empty
  | ['+'] => .error .invalidDigit
  | '+' :: rest => boundedFrom max 0 rest
  | cs => boundedFrom max 0 cs

end PgMetrics.Decimal
