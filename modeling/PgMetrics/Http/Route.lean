import PgMetrics.Text.Fields

/-! # Routes

The path of a route is matched segment by segment.  A segment in braces captures any text, one that
begins with `{*` the rest of the path; a doubled brace is a plain one.  Some paths make no route: a
path that is empty or does not begin with a slash, a segment that begins with `:` or `*`, and braces
that do not match.  Braces inside the name of a capture are taken to be refused, doubled ones too, and a
route to have room for any number of captures.
-/
namespace PgMetrics.Http

inductive Segment where
  | literal (text : List Char)
  /-- A text, then anything but a slash, at least one character. -/
  | capture (lead name : List Char)
  /-- A text, then the rest of the path, at least one character. -/
  | remainder (lead name : List Char)
  deriving Repr, DecidableEq

inductive RouteFault where
  | empty
  | noSlash
  | colon
  | star
  | braces
  | remainderNotLast
  | taken
  deriving Repr, DecidableEq

/-- Reads a segment after the plain text `lead`. -/
def segmentFrom (lead : List Char) : List Char → Except RouteFault Segment
  | [] => .ok (.literal lead)
  | '\x7b' :: '\x7b' :: rest => segmentFrom (lead ++ ['\x7b']) rest
  | '\x7d' :: '\x7d' :: rest => segmentFrom (lead ++ ['\x7d']) rest
  | '\x7b' :: rest =>
    match Text.cut '\x7d' rest with
    | some ('*' :: name, []) =>
      if name.isEmpty || name.contains '\x7b' || name.contains '*' then .error .braces
      else .ok (.remainder lead name)
    | some (name, []) =>
      if name.isEmpty || name.contains '\x7b' || name.contains '*' then .error .braces
      else .ok (.capture lead name)
    | _ => .error .braces
  | '\x7d' :: _ => .error .braces
  | c :: rest => segmentFrom (lead ++ [c]) rest

def segment? : List Char → Except RouteFault Segment
  | ':' :: _ => .error .colon
  | '*' :: _ => .error .star
  | cs => segmentFrom [] cs

def segments? : List (List Char) → Except RouteFault (List Segment)
  | [] => .ok []
  | f :: rest =>
    match segment? f, segments? rest with
    | .error fault, _ => .error fault
    | .ok _, .error fault => .error fault
    | .ok (.remainder lead name), .ok more =>
      if more.isEmpty then .ok [.remainder lead name] else .error .remainderNotLast
    | .ok s, .ok more => .ok (s :: more)

def pathSegments (path : String) : List (List Char) := (Text.fields '/' path.toList).drop 1

def route? (path : String) : Except RouteFault (List Segment) :=
  match path.toList with
  | [] => .error .empty
  | '/' :: _ => segments? (pathSegments path)
  | _ => .error .noSlash

def extends? (lead text : List Char) : Bool := lead.isPrefixOf text && lead.length < text.length

/-- Whether a path, given by its segments, takes a route. -/
def takes : List Segment → List (List Char) → Bool
  | [], [] => true
  | .literal text :: rest, p :: ps => p == text && takes rest ps
  | .capture lead _ :: rest, p :: ps => extends? lead p && takes rest ps
  | .remainder lead _ :: _, p :: ps => extends? lead (Text.joinFields '/' (p :: ps))
  | _, _ => false

inductive Endpoint where
  | metrics
  | health
  deriving Repr, DecidableEq

def healthPath : String := "/health"

structure Routes where
  metrics : List Segment
  deriving Repr, DecidableEq

def Routes.ofMetricsPath? (path : String) : Except RouteFault Routes :=
  match route? path with
  | .error fault => .error fault
  | .ok segments =>
    if segments = [.literal (healthPath.toList.drop 1)] then .error .taken else .ok ⟨segments⟩

/-- Where a path leads; plain segments go before captures. -/
def Routes.endpoint? (r : Routes) (path : String) : Option Endpoint :=
  if path = healthPath then some .health
  else if path.toList.head? = some '/' && takes r.metrics (pathSegments path) then some .metrics
  else none

end PgMetrics.Http
