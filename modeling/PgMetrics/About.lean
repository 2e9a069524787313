import PgMetrics.Text.Utf8

/-! # The program's own name

Name, version and commit, and the header in which the health check reports them.
-/
namespace PgMetrics

structure About where
  name : String
  version : String
  commit : String
  deriving Repr, DecidableEq

/-- This program; the commit is not known when it is built outside a repository. -/
def About.this : About := ⟨"postgres_exporter", "0.1.0", ":-("⟩

/-- The characters that take up exactly `n` bytes at the beginning, if there are such. -/
def takeBytes? : Nat → List Char → Option (List Char)
  | 0, _ => some []
  | _, [] => none
  | n, c :: rest => if c.utf8Size ≤ n then (takeBytes? (n - c.utf8Size) rest).map (c :: ·) else none

/-- Whether a text may be the value of a header: no control character but the tab. -/
def isHeaderText (s : String) : Bool :=
  s.toList.all fun c => c == '\t' || (0x20 ≤ c.toNat && c.toNat ≠ 0x7F)

def About.header? (a : About) : Option String :=
  let short := String.ofList ((takeBytes? 7 a.commit.toList).getD [])
  let text := a.name ++ ":" ++ a.version ++ ":" ++ short
  if isHeaderText text then some text else none

end PgMetrics
