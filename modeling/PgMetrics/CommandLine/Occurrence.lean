import PgMetrics.CommandLine.Basic
import PgMetrics.Text.Fields

/-! # Options as they occur

The arguments are read as a list of occurrences.  The value of a setting follows its long name after
an equals sign, its letter directly or after one, or is the next argument unless that looks like an
option.  Letters may be put together.  Reading stops at an argument that has no meaning; an option
right before it that still waits for its next argument, or has just taken it, is then not acted
upon.
-/
namespace PgMetrics.CommandLine

inductive Occurrence where
  /-- A setting with its value; `detached` if the value is an argument of its own. -/
  | value (s : Setting) (text : String) (detached : Bool)
  /-- A setting without a value. -/
  | missing (s : Setting)
  | switch (s : Switch) (long : Bool)
  deriving Repr, DecidableEq

inductive Refusal where
  | unknown (text : String)
  | unexpectedValue (s : Switch) (text : String)
  | missingValue (s : Setting)
  | badValue (s : Setting) (text : String)
  | repeated (f : Flag)
  deriving Repr, DecidableEq

inductive Ending where
  | complete
  | wants (s : Setting)
  | refused (r : Refusal)
  deriving Repr, DecidableEq

def letters : List Char → List Occurrence × Ending
  | [] => ([], .complete)
  | c :: rest =>
    match Flag.ofLetter? c with
    | none => ([], .refused (.unknown (String.ofList ['-', c])))
    | some (.switch s) =>
      let (os, ending) := letters rest
      (.switch s false :: os, ending)
    | some (.setting s) =>
      match rest with
      | [] => ([], .wants s)
      | '=' :: text => ([.value s (String.ofList text) false], .complete)
      | text => ([.value s (String.ofList text) false], .complete)

def word (cs : List Char) : List Occurrence × Ending :=
  let (name, text) := match Text.cut '=' cs with
    | some (name, text) => (String.ofList name, some (String.ofList text))
    | none => (String.ofList cs, none)
  match Flag.ofName? name, text with
  | none, _ => ([], .refused (.unknown ("--" ++ name)))
  | some (.setting s), some text => ([.value s text false], .complete)
  | some (.setting s), none => ([], .wants s)
  | some (.switch s), some text => ([], .refused (.unexpectedValue s text))
  | some (.switch s), none => ([.switch s true], .complete)

def argument (cs : List Char) : List Occurrence × Ending :=
  match cs with
  | '-' :: '-' :: rest => word rest
  | '-' :: c :: rest => letters (c :: rest)
  | cs => ([], .refused (.unknown (String.ofList cs)))

/-- Whether an argument can be the value of the setting before it. -/
def isValue (arg : String) : Bool :=
  match arg.toList with
  | '-' :: _ :: _ => false
  | _ => true

/-- What is read from arguments: occurrences, and why reading stopped before the end. -/
structure Reading where
  occurrences : List Occurrence
  refusal : Option Refusal
  deriving Repr, DecidableEq

namespace Reading

def append (os : List Occurrence) (r : Reading) : Reading :=
  { r with occurrences := os ++ r.occurrences }

/-- Puts an option in front that waits for its next argument, or has just taken it. -/
def await (o : Occurrence) (r : Reading) : Reading :=
  if r.occurrences.isEmpty && r.refusal.isSome then r else append [o] r

def ofArguments : List String → Reading
  | [] => ⟨[], none⟩
  | arg :: rest =>
    if arg = "--" then ⟨[], rest.head?.map .unknown⟩
    else
      match argument arg.toList with
      | (os, .complete) => append os (ofArguments rest)
      | (os, .refused r) => ⟨os, some r⟩
      | (os, .wants s) =>
        match rest with
        | [] => ⟨os ++ [.missing s], none⟩
        | text :: more =>
          if isValue text then append os (await (.value s text true) (ofArguments more))
          else append os (await (.missing s) (ofArguments (text :: more)))

end Reading
end PgMetrics.CommandLine
