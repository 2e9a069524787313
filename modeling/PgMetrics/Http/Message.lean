import PgMetrics.Http.Trace

/-! # Requests and responses

What of a request decides the answer, and what an answer shows.  Every answer names the request and
the trace it belongs to: as the request named them, or by a fresh identifier.
-/
namespace PgMetrics.Http

structure Request where
  method : String
  path : String
  query : String
  headers : List (String × String) := []
  deriving Repr, DecidableEq

def upTo (p : Char → Bool) (cs : List Char) : List Char := cs.takeWhile (!p ·)

/-- The path and the query of a request target, which may name a scheme and a host first. -/
def splitTarget (target : String) : String × String :=
  let cs := upTo (· == '#') target.toList
  let cs := match cs with
    | '/' :: _ => cs
    | _ =>
      match (Text.fields '/' cs) with
      | scheme :: [] :: _ :: path =>
        if scheme.getLast? = some ':' then '/' :: Text.joinFields '/' path else cs
      | _ => cs
  match Text.cut '?' cs with
  | some (path, query) => (String.ofList path, String.ofList query)
  | none => (String.ofList cs, "")

def Request.ofTarget (method target : String) (headers : List (String × String)) : Request :=
  let (path, query) := splitTarget target
  ⟨method, path, query, headers⟩

/-- The first header of that name, which is given in lower case. -/
def Request.header? (r : Request) (name : String) : Option String :=
  (r.headers.find? fun h => String.ofList (h.1.toList.map Char.toLower) == name).map Prod.snd

inductive Identifier where
  | given (text : String)
  | fresh (width : Nat)
  deriving Repr, DecidableEq

structure Answer where
  status : Nat
  contentType : Option String := none
  app : Option String := none
  allow : Option String := none
  body : String := ""
  deriving Repr, DecidableEq

structure Response where
  answer : Answer
  requestId : Identifier
  traceId : Identifier
  deriving Repr, DecidableEq

def Request.identifier (r : Request) : Identifier :=
  match r.header? "x-request-id" with
  | some text => .given text
  | none => .fresh 26

def Request.trace (r : Request) : Identifier :=
  match (r.header? "traceparent").bind TraceContext.ofHeader? with
  | some context => .given context.text
  | none => .fresh 32

def Request.respond (r : Request) (a : Answer) : Response := ⟨a, r.identifier, r.trace⟩

end PgMetrics.Http
