/-! # Bytes in base 64

Four symbols carry three bytes, the first bits first.  The last four symbols may carry one or two
bytes only: then one or two pads fill up the four, and the bits that carry nothing are zero.  Hence
every list of bytes has one written form.
-/
namespace PgMetrics.Text.Base64

def alphabet : List Char :=
  "ABCDEFGHIJKLMNOPQRSTUVWXYZabcdefghijklmnopqrstuvwxyz0123456789+/".toList

def pad : UInt8 := 0x3D

def value? (b : UInt8) : Option Nat :=
  let n := b.toNat
  if 0x41 ≤ n && n ≤ 0x5A then some (n - 0x41)
  else if 0x61 ≤ n && n ≤ 0x7A then some (n - 0x61 + 26)
  else if 0x30 ≤ n && n ≤ 0x39 then some (n - 0x30 + 52)
  else if n == 0x2B then some 62
  else if n == 0x2F then some 63
  else none

inductive Fault where
  /-- No symbol, or a pad where there may be none. -/
  | symbol (byte : UInt8) (index : Nat)
  /-- The text ends after a single symbol of a group. -/
  | tooShort (length : Nat)
  /-- The last symbol carries bits beyond the last byte. -/
  | lastSymbol (byte : UInt8) (index : Nat)
  | padding
  deriving Repr, DecidableEq

def Fault.message : Fault → String
  | .symbol byte index => s!"Invalid symbol {byte}, offset {index}."
  | .tooShort length => s!"Invalid input length: {length}"
  | .lastSymbol byte index => s!"Invalid last symbol {byte}, offset {index}."
  | .padding => "Invalid padding"

def join (a b c d : Nat) : List UInt8 :=
  [UInt8.ofNat (a * 4 + b / 16), UInt8.ofNat (b * 16 + c / 4), UInt8.ofNat (c * 64 + d)]

def values? (i : Nat) : List UInt8 → Except Fault (List Nat)
  | [] => .ok []
  | b :: rest =>
    match value? b with
    | none => .error (.symbol b i)
    | some v =>
      match values? (i + 1) rest with
      | .ok vs => .ok (v :: vs)
      | .error fault => .error fault

/-- What the last group carries: up to four symbols and pads, from index `i` on. -/
def lastGroup? (i : Nat) (group : List UInt8) : Except Fault (List UInt8) :=
  let symbols := group.takeWhile (· != pad)
  let pads := group.dropWhile (· != pad)
  match values? i symbols with
  | .error fault => .error fault
  | .ok vs =>
    if !pads.isEmpty && vs.length < 2 then .error (.symbol pad (i + vs.length))
    else if pads.any (· != pad) then .error (.symbol pad (i + vs.length))
    else
      match vs with
      | [] => .ok []
      | [_] => .error (.tooShort (i + 1))
      | [a, b] =>
        if pads.length ≠ 2 then .error .padding
        else if b % 16 ≠ 0 then .error (.lastSymbol (symbols.getLastD 0) (i + 1))
        else .ok ((join a b 0 0).take 1)
      | [a, b, c] =>
        if pads.length ≠ 1 then .error .padding
        else if c % 4 ≠ 0 then .error (.lastSymbol (symbols.getLastD 0) (i + 2))
        else .ok ((join a b c 0).take 2)
      | a :: b :: c :: d :: _ => .ok (join a b c d)

def groups? (i : Nat) : List UInt8 → Except Fault (List UInt8)
  | a :: b :: c :: d :: e :: rest =>
    match values? i [a, b, c, d] with
    | .ok [a, b, c, d] =>
      match groups? (i + 4) (e :: rest) with
      | .ok bytes => .ok (join a b c d ++ bytes)
      | .error fault => .error fault
    | .ok _ => .ok []
    | .error fault => .error fault
  | group => lastGroup? i group

/-- A byte that stands alone at the end and is no symbol is the first fault to be named. -/
def strayEnd? (text : List UInt8) : Option Fault :=
  match text.getLast? with
  | some b =>
    if text.length % 4 = 1 && b != pad && (value? b).isNone then some (.symbol b (text.length - 1))
    else none
  | none => none

def decode (text : List UInt8) : Except Fault (List UInt8) :=
  match strayEnd? text with
  | some fault => .error fault
  | none => groups? 0 text

def symbol (v : Nat) : Char := alphabet.getD (v % 64) 'A'

def encode : List UInt8 → List Char
  | [] => []
  | [a] => [symbol (a.toNat / 4), symbol (a.toNat * 16), '=', '=']
  | [a, b] =>
    [symbol (a.toNat / 4), symbol (a.toNat * 16 + b.toNat / 16), symbol (b.toNat * 4), '=']
  | a :: b :: c :: rest =>
    symbol (a.toNat / 4) :: symbol (a.toNat * 16 + b.toNat / 16) ::
      symbol (b.toNat * 4 + c.toNat / 64) :: symbol c.toNat :: encode rest

example : encode [1, 2, 3, 251] = "AQID+w==".toList := by decide

end PgMetrics.Text.Base64
