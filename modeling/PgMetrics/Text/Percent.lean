import PgMetrics.Text.Utf8

/-! # Percent-encoded bytes

A percent sign followed by two hexadecimal digits stands for one byte; any other percent sign stands
for itself.
-/
namespace PgMetrics.Text.Percent

def hexValue? (b : UInt8) : Option Nat :=
  let n := b.toNat
  if 0x30 ≤ n && n ≤ 0x39 then some (n - 0x30)
  else if 0x41 ≤ n && n ≤ 0x46 then some (n - 0x37)
  else if 0x61 ≤ n && n ≤ 0x66 then some (n - 0x57)
  else none

def decode : List UInt8 → List UInt8
  | [] => []
  | b :: rest =>
    if b == 0x25 then
      match rest with
      | h :: l :: rest' =>
        match hexValue? h, hexValue? l with
        | some h', some l' => UInt8.ofNat (h' * 16 + l') :: decode rest'
        | _, _ => b :: decode (h :: l :: rest')
      | rest => b :: decode rest
    else b :: decode rest

def hexByte (b : UInt8) : List Char :=
  [(b.toNat / 16).digitChar.toUpper, (b.toNat % 16).digitChar.toUpper]

def encodeByte (b : UInt8) : List Char := '%' :: hexByte b

/-- The text with the characters outside `keep` written as percent-encoded UTF-8. -/
def encode (keep : Char → Bool) (cs : List Char) : List Char :=
  cs.flatMap fun c =>
    if keep c then [c] else (Utf8.encode (String.singleton c)).flatMap encodeByte

/-- The text meant by a percent-encoded text; faulty UTF-8 is shown as replacement characters. -/
def decodeLossy (s : String) : String := Utf8.decodeLossy (decode (Utf8.encode s))

def decode? (s : String) : Except Utf8.Fault String := Utf8.decode (decode (Utf8.encode s))

end PgMetrics.Text.Percent
