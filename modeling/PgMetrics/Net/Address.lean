import PgMetrics.Decimal.Reading
import PgMetrics.Text.Fields

/-! # Internet addresses

An address is four bytes or eight 16-bit groups.  Reading takes the usual texts: four decimal parts
without leading zeros, or groups of up to four hexadecimal digits of which one run may be left out
as `::` and the last two may be written as a four-part address.  Writing follows RFC 5952: the
longest run of at least two zero groups is left out, the first of equally long ones, and an address
that maps a four-byte one shows it.
-/
namespace PgMetrics.Net

inductive Address where
  | v4 (a b c d : UInt8)
  | v6 (groups : Vector UInt16 8)
  deriving Repr, DecidableEq

/-- One part of a four-part address: decimal, at most 255, without leading zeros. -/
def part? (cs : List Char) : Option UInt8 :=
  if cs.length > 3 || (cs.length > 1 && cs.head? = some '0') then none
  else
    match Decimal.natural? cs with
    | some n => if n < 256 then some (UInt8.ofNat n) else none
    | none => none

def parts? (cs : List Char) : Option (UInt8 × UInt8 × UInt8 × UInt8) := do
  match Text.fields '.' cs with
  | [a, b, c, d] => return (← part? a, ← part? b, ← part? c, ← part? d)
  | _ => none

def hexValue? (c : Char) : Option Nat :=
  if c.isDigit then some (c.toNat - 0x30)
  else if 'a' ≤ c && c ≤ 'f' then some (c.toNat - 0x57)
  else if 'A' ≤ c && c ≤ 'F' then some (c.toNat - 0x37)
  else none

def group? (cs : List Char) : Option UInt16 :=
  if cs.isEmpty || 4 < cs.length then none
  else (cs.mapM hexValue?).map fun ds => UInt16.ofNat (ds.foldl (fun n d => n * 16 + d) 0)

def joinBytes (a b : UInt8) : UInt16 := UInt16.ofNat (a.toNat * 256 + b.toNat)

/-- The groups between colons; the last field may be a four-part address if `tail` allows it. -/
def groupsOf? (tail : Bool) : List (List Char) → Option (List UInt16)
  | [] => some []
  | [f] =>
    match group? f with
    | some g => some [g]
    | none =>
      if tail then (parts? f).map fun (a, b, c, d) => [joinBytes a b, joinBytes c d] else none
  | f :: rest =>
    match group? f, groupsOf? tail rest with
    | some g, some gs => some (g :: gs)
    | _, _ => none

def side? (tail : Bool) (cs : List Char) : Option (List UInt16) :=
  if cs.isEmpty then some [] else groupsOf? tail (Text.fields ':' cs)

def cutGap : List Char → Option (List Char × List Char)
  | ':' :: ':' :: rest => some ([], rest)
  | c :: rest => (cutGap rest).map fun (l, r) => (c :: l, r)
  | [] => none

def Address.ofGroups? (gs : List UInt16) : Option Address :=
  if h : gs.toArray.size = 8 then some (.v6 ⟨gs.toArray, h⟩) else none

def v6? (cs : List Char) : Option Address := do
  match cutGap cs with
  | some (left, right) =>
    let ls ← side? false left
    let rs ← side? true right
    if 7 < ls.length + rs.length then none
    Address.ofGroups? (ls ++ List.replicate (8 - ls.length - rs.length) 0 ++ rs)
  | none => Address.ofGroups? (← groupsOf? true (Text.fields ':' cs))

def Address.ofText? (cs : List Char) : Option Address :=
  match parts? cs with
  | some (a, b, c, d) => some (.v4 a b c d)
  | none => v6? cs

def partsText (a b c d : UInt8) : String :=
  ".".intercalate ([a, b, c, d].map fun p => toString p.toNat)

def groupText (g : UInt16) : String := String.ofList (Nat.toDigits 16 g.toNat)

def groupsText (gs : List UInt16) : String := ":".intercalate (gs.map groupText)

def zeroRun (gs : List UInt16) : Nat := (gs.takeWhile (· == 0)).length

/-- Start and length of the first of the longest runs of zero groups from index `i` on. -/
def longestRun (i : Nat) : List UInt16 → Nat × Nat
  | [] => (i, 0)
  | g :: rest =>
    let here := zeroRun (g :: rest)
    let later := longestRun (i + 1) rest
    if later.2 ≤ here then (i, here) else later

def shortGroups (gs : List UInt16) : String :=
  let (start, len) := longestRun 0 gs
  if len < 2 then groupsText gs
  else groupsText (gs.take start) ++ "::" ++ groupsText (gs.drop (start + len))

def Address.text : Address → String
  | .v4 a b c d => partsText a b c d
  | .v6 groups =>
    match groups.toList with
    | [0, 0, 0, 0, 0, 0xFFFF, x, y] =>
      "::ffff:" ++ partsText (x.toNat / 256).toUInt8 x.toUInt8 (y.toNat / 256).toUInt8 y.toUInt8
    | gs => shortGroups gs

def Address.withPort (a : Address) (port : Nat) : String :=
  match a with
  | .v4 .. => s!"{a.text}:{port}"
  | .v6 _ => s!"[{a.text}]:{port}"

def Address.bytes : Address → List UInt8
  | .v4 a b c d => [a, b, c, d]
  | .v6 groups => groups.toList.flatMap fun g => [(g.toNat / 256).toUInt8, g.toUInt8]

def pairBytes : List UInt8 → List UInt16
  | a :: b :: rest => joinBytes a b :: pairBytes rest
  | _ => []

def Address.ofBytes? : List UInt8 → Option Address
  | [a, b, c, d] => some (.v4 a b c d)
  | bytes => if bytes.length = 16 then Address.ofGroups? (pairBytes bytes) else none

end PgMetrics.Net
