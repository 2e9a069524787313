import PgMetrics.Text.Printable

/-! # Quoted text

A text between double quotes in which a quote, a backslash and every hidden character is escaped,
so that what is shown tells apart any two texts.
-/
namespace PgMetrics.Text

def quotedChar : Char → List Char
  | '"' => ['\\', '"']
  | '\\' => ['\\', '\\']
  | '\t' => ['\\', 't']
  | '\n' => ['\\', 'n']
  | '\r' => ['\\', 'r']
  | '\x00' => ['\\', '0']
  | c =>
    if isHidden c then ['\\', 'u', '\x7b'] ++ Nat.toDigits 16 c.toNat ++ ['\x7d'] else [c]

def quoted (s : String) : String :=
  String.ofList ('"' :: s.toList.flatMap quotedChar ++ ['"'])

example : quoted "a\"b\\c\nd" = "\"a\\\"b\\\\c\\nd\"" := by decide +kernel

end PgMetrics.Text
