/-! # Reading bytes as UTF-8

A machine reads one byte at a time.  It yields characters and faults; a fault is a maximal run of
bytes that starts a character which the next byte (or the end of the input) does not continue.
`decode` refuses the first fault and `decodeLossy` shows each as one replacement character.
-/
namespace PgMetrics.Text.Utf8

inductive Item where
  /-- A character written in `width` bytes. -/
  | char (c : Char) (width : Nat)
  /-- A run of `width` bytes that the following byte rules out. -/
  | invalid (width : Nat)
  /-- A run at the end of the input that lacks its last bytes. -/
  | truncated (width : Nat)
  deriving Repr, DecidableEq

/-- Inside a character: the value so far, the bytes read and still owed, the range of the next. -/
structure Pending where
  value : Nat
  width : Nat
  owed : Nat
  low : Nat
  high : Nat
  deriving Repr, DecidableEq

def start (b : Nat) : List Item × Option Pending :=
  if b < 0x80 then ([.char (Char.ofNat b) 1], none)
  else if 0xC2 ≤ b && b ≤ 0xDF then ([], some ⟨b - 0xC0, 1, 1, 0x80, 0xBF⟩)
  else if b == 0xE0 then ([], some ⟨0, 1, 2, 0xA0, 0xBF⟩)
  else if b == 0xED then ([], some ⟨0xD, 1, 2, 0x80, 0x9F⟩)
  else if 0xE1 ≤ b && b ≤ 0xEF then ([], some ⟨b - 0xE0, 1, 2, 0x80, 0xBF⟩)
  else if b == 0xF0 then ([], some ⟨0, 1, 3, 0x90, 0xBF⟩)
  else if 0xF1 ≤ b && b ≤ 0xF3 then ([], some ⟨b - 0xF0, 1, 3, 0x80, 0xBF⟩)
  else if b == 0xF4 then ([], some ⟨4, 1, 3, 0x80, 0x8F⟩)
  else ([.invalid 1], none)

/-- One byte: what it yields and where the machine stands after it. -/
def step (state : Option Pending) (b : Nat) : List Item × Option Pending :=
  match state with
  | none => start b
  | some p =>
    if p.low ≤ b && b ≤ p.high then
      let value := p.value * 64 + (b - 0x80)
      if p.owed ≤ 1 then ([.char (Char.ofNat value) (p.width + 1)], none)
      else ([], some ⟨value, p.width + 1, p.owed - 1, 0x80, 0xBF⟩)
    else
      let (items, next) := start b
      (.invalid p.width :: items, next)

def itemsFrom (state : Option Pending) : List UInt8 → List Item
  | [] =>
    match state with
    | none => []
    | some p => [.truncated p.width]
  | b :: rest =>
    let (items, next) := step state b.toNat
    items ++ itemsFrom next rest

def items (bytes : List UInt8) : List Item := itemsFrom none bytes

/-- Why bytes are not UTF-8: the index of the first fault, and its width unless it is cut short. -/
structure Fault where
  index : Nat
  width : Option Nat
  deriving Repr, DecidableEq

def Fault.message (f : Fault) : String :=
  match f.width with
  | some width => s!"invalid utf-8 sequence of {width} bytes from index {f.index}"
  | none => s!"incomplete utf-8 byte sequence from index {f.index}"

def charsFrom (index : Nat) : List Item → Except Fault (List Char)
  | [] => .ok []
  | .char c width :: rest =>
    match charsFrom (index + width) rest with
    | .ok cs => .ok (c :: cs)
    | .error f => .error f
  | .invalid width :: _ => .error ⟨index, some width⟩
  | .truncated _ :: _ => .error ⟨index, none⟩

def decode (bytes : List UInt8) : Except Fault String :=
  match charsFrom 0 (items bytes) with
  | .ok cs => .ok (String.ofList cs)
  | .error f => .error f

def replacement : Char := Char.ofNat 0xFFFD

def Item.shown : Item → Char
  | .char c _ => c
  | .invalid _ => replacement
  | .truncated _ => replacement

def decodeLossy (bytes : List UInt8) : String := String.ofList ((items bytes).map Item.shown)

def encode (s : String) : List UInt8 := s.toUTF8.toList

/-- Two lead bytes: the first is cut off by the second, which the input's end cuts off. -/
example : items [0xE2, 0xE2] = [.invalid 1, .truncated 1] := by decide

end PgMetrics.Text.Utf8
