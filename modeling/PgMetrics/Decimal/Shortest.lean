import PgMetrics.Text.Blank

/-! # The shortest decimal that reads back

A finite double is `m · 2^q`.  The reals that round to it form an interval around it, whose ends
belong to it iff `m` is even.  For 1, 2, … digits the two neighbours of the value on that decimal
grid are tested in exact natural arithmetic; the first grid with a hit wins, of two hits the
nearer, and of two equally near the upper.  Seventeen digits always hit.

`text` writes the digits positionally, without exponent and without trailing zeros after the point.
-/
namespace PgMetrics.Decimal

inductive Parts where
  | nan
  | infinite (negative : Bool)
  /-- The value is `mantissa · 2^exponent`; `atPower` says that the next double below is nearer. -/
  | finite (negative : Bool) (mantissa : Nat) (exponent : Int) (atPower : Bool)
  deriving Repr, DecidableEq

def fractionSpan : Nat := 0x10000000000000

def Parts.ofBits (bits : UInt64) : Parts :=
  let n : Nat := bits.toNat
  let negative := n / fractionSpan / 2048 == 1
  let biased : Nat := n / fractionSpan % 2048
  let fraction : Nat := n % fractionSpan
  if biased == 2047 then
    if fraction == 0 then .infinite negative else .nan
  else if biased == 0 then .finite negative fraction (-1074) false
  else
    .finite negative (fraction + fractionSpan) ((biased : Int) - 1075)
      (fraction == 0 && biased != 1)

/-- A positive value with its rounding interval, all over one denominator. -/
structure Interval where
  low : Nat
  value : Nat
  high : Nat
  den : Nat
  closed : Bool
  deriving Repr, DecidableEq

/-- The reals that round to `m · 2^q`: half a unit up, and half or a quarter of one down. -/
def Interval.ofBinary (m : Nat) (q : Int) (atPower : Bool) : Interval :=
  let up := Nat.pow 2 (q - 2).toNat
  { low := (4 * m - if atPower then 1 else 2) * up
    value := 4 * m * up
    high := (4 * m + 2) * up
    den := Nat.pow 2 (2 - q).toNat
    closed := m % 2 == 0 }

def Interval.holds (i : Interval) (num : Nat) : Bool :=
  if i.closed then i.low ≤ num && num ≤ i.high else i.low < num && num < i.high

def Interval.scale (i : Interval) (e : Int) : Interval :=
  let up := Nat.pow 10 e.toNat
  { i with low := i.low * up, value := i.value * up, high := i.high * up
           den := i.den * Nat.pow 10 (-e).toNat }

def width (n : Nat) : Nat := (Nat.toDigits 10 n).length

/-- The least `k` with `num / den < 10^k`, for a positive fraction. -/
def magnitude (num den : Nat) : Int :=
  let k : Int := width num - width den
  if den * Nat.pow 10 k.toNat ≤ num * Nat.pow 10 (-k).toNat then k + 1 else k

/-- The grid point of step one that is nearest to the value among its neighbours in the interval. -/
def Interval.gridPoint? (i : Interval) : Option Nat :=
  let below := i.value / i.den
  let down := i.value - below * i.den
  let lower := i.holds (below * i.den)
  let upper := i.holds ((below + 1) * i.den)
  if lower && (!upper || 2 * down < i.den) then some below
  else if upper then some (below + 1)
  else none

/-- The first of the grids of `digits`, `digits + 1`, … digits that has a point in the interval;
the answer is `point · 10^exponent`. -/
def search (i : Interval) (k : Int) (digits : Nat) : Nat → Nat × Int
  | 0 => (0, 0)
  | fuel + 1 =>
    match (i.scale (digits - k)).gridPoint? with
    | some point => (point, k - digits)
    | none => search i k (digits + 1) fuel

/-- The shortest decimal `point · 10^exponent` that rounds to `m · 2^q`, for a positive `m`. -/
def shortest (m : Nat) (q : Int) (atPower : Bool) : Nat × Int :=
  let i := Interval.ofBinary m q atPower
  search i (magnitude i.value i.den) 1 17

def digits (n : Nat) : List Char := Nat.toDigits 10 n

def positional (point : Nat) (exponent : Int) : List Char :=
  let ds := digits point
  if 0 ≤ exponent then ds ++ List.replicate exponent.toNat '0'
  else
    let places := (-exponent).toNat
    let padded := List.replicate (places + 1 - ds.length) '0' ++ ds
    let whole := padded.take (padded.length - places)
    match Text.dropEndWhile (· == '0') (padded.drop (padded.length - places)) with
    | [] => whole
    | fraction => whole ++ '.' :: fraction

def Parts.text : Parts → String
  | .nan => "NaN"
  | .infinite negative => if negative then "-inf" else "inf"
  | .finite negative m q atPower =>
    let body :=
      if m = 0 then ['0']
      else
        let (point, exponent) := shortest m q atPower
        positional point exponent
    String.ofList (if negative then '-' :: body else body)

/-- The text of a double: the fewest digits that read back, never with an exponent. -/
def text (x : Float) : String := (Parts.ofBits x.toBits).text

end PgMetrics.Decimal
