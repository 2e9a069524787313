import PgMetrics.Text.Fields

/-! # Paths without dot segments

A segment of one dot stands for where it is and one of two dots for the level above, where a dot may
be written `%2e`.  Resolving them leaves no dot segment in a path.
-/
namespace PgMetrics.Url

def readDots : List Char → List Char
  | '%' :: '2' :: c :: rest =>
    if c == 'e' || c == 'E' then '.' :: readDots rest else '%' :: '2' :: readDots (c :: rest)
  | c :: rest => c :: readDots rest
  | [] => []

inductive Move where
  | stay
  | up
  | down
  deriving Repr, DecidableEq

def Move.ofSegment (segment : List Char) : Move :=
  match readDots segment with
  | ['.'] => .stay
  | ['.', '.'] => .up
  | _ => .down

/-- A drive such as `C:`, which nothing leads above. -/
def isDrive : List Char → Bool
  | [c, m] => c.isAlpha && (m == ':' || m == '|')
  | c :: m :: '\\' :: _ => c.isAlpha && (m == ':' || m == '|')
  | _ => false

def above : List (List Char) → List (List Char)
  | [] => []
  | s :: rest => if isDrive s then s :: rest else rest

/-- The segments left when dot segments are resolved; `done` is the path so far, innermost segment
first.  A dot segment at the end leaves an empty segment. -/
def resolveFrom (done : List (List Char)) : List (List Char) → List (List Char)
  | [] => done.reverse
  | [last] =>
    match Move.ofSegment last with
    | .stay => ([] :: done).reverse
    | .up => ([] :: above done).reverse
    | .down => (last :: done).reverse
  | s :: rest =>
    match Move.ofSegment s with
    | .stay => resolveFrom done rest
    | .up => resolveFrom (above done) rest
    | .down => resolveFrom (s :: done) rest

def resolve (cs : List Char) : List Char :=
  '/' :: Text.joinFields '/' (resolveFrom [] (Text.fields '/' cs))

example : resolve "a/./b/%2E./c".toList = "/a/c".toList := by decide
example : resolve "../a/..".toList = "/".toList := by decide

end PgMetrics.Url
