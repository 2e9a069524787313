import PgMetrics.Exposition.Text
import PgMetrics.Text.Fields
import Mathlib.Data.List.Basic
import Mathlib.Data.Nat.Init

/-! # Reading the text format

The other direction of the text format.  A text is a sequence of lines, each ended by a line feed: a
line that begins with a number sign declares the help or the type of a metric or is a comment, and
every other line is empty or gives a sample.  A sample is a name, labels in braces, a value and
possibly a time.  In a help a backslash and a line feed are escaped, in a label value a quote too.

All lines about a metric stand together, and its help and type come before its samples.  So a text
reads as a list of entries, one for each metric.  Blanks may stand between the words of a line, but
not between the braces.
-/
namespace PgMetrics.Exposition

def unescapeHelp : List Char → Option (List Char)
  | [] => some []
  | '\\' :: '\\' :: rest => (unescapeHelp rest).map ('\\' :: ·)
  | '\\' :: 'n' :: rest => (unescapeHelp rest).map ('\n' :: ·)
  | '\\' :: _ => none
  | c :: rest => (unescapeHelp rest).map (c :: ·)

def readValue : List Char → Option (List Char × List Char)
  | [] => none
  | '"' :: rest => some ([], rest)
  | '\\' :: '\\' :: rest => (readValue rest).map fun (value, rest) => ('\\' :: value, rest)
  | '\\' :: 'n' :: rest => (readValue rest).map fun (value, rest) => ('\n' :: value, rest)
  | '\\' :: '"' :: rest => (readValue rest).map fun (value, rest) => ('"' :: value, rest)
  | '\\' :: _ => none
  | c :: rest => (readValue rest).map fun (value, rest) => (c :: value, rest)

def readLabel (cs : List Char) : Option ((String × String) × List Char) :=
  match Text.cut '=' cs with
  | some (name, '"' :: rest) =>
    if isName (fun _ => false) name then
      (readValue rest).map fun (value, rest) => ((String.ofList name, String.ofList value), rest)
    else none
  | _ => none

theorem length_of_readValue {cs value rest : List Char} (h : readValue cs = some (value, rest)) :
    rest.length < cs.length := by
  induction cs using readValue.induct generalizing value with
  | case1 => cases h
  | case2 tail =>
    cases h
    exact Nat.lt_succ_self _
  | case3 tail ih | case4 tail ih | case5 tail ih =>
    obtain ⟨⟨v, r⟩, hread, heq⟩ := Option.map_eq_some_iff.mp h
    cases heq
    have hlt := ih hread
    simp only [List.length_cons]
    omega
  | case6 => simp [readValue] at h
  | case7 c tail _ _ _ _ _ ih =>
    rw [readValue] at h <;> try assumption
    obtain ⟨⟨v, r⟩, hread, heq⟩ := Option.map_eq_some_iff.mp h
    cases heq
    have hlt := ih hread
    simp only [List.length_cons]
    omega

theorem length_of_readLabel {cs rest : List Char} {label : String × String}
    (h : readLabel cs = some (label, rest)) : rest.length < cs.length := by
  unfold readLabel at h
  split at h
  · rename_i name tail hcut
    split at h
    · obtain ⟨⟨value, r⟩, hread, heq⟩ := Option.map_eq_some_iff.mp h
      cases heq
      have hlt := length_of_readValue hread
      rw [Text.eq_of_cut hcut, List.length_append, List.length_cons, List.length_cons]
      omega
    · cases h
  · cases h

def readLabels (cs : List Char) : Option (List (String × String) × List Char) :=
  match _ : readLabel cs with
  | some (label, '\x7d' :: rest) => some ([label], rest)
  | some (label, ',' :: rest) => (readLabels rest).map fun (labels, rest) => (label :: labels, rest)
  | some _ => none
  | none =>
    match cs with
    | '\x7d' :: rest => some ([], rest)
    | _ => none
termination_by cs.length
decreasing_by
  have hlt := length_of_readLabel ‹_›
  simp only [List.length_cons] at hlt
  omega

structure Reading where
  labels : List (String × String)
  value : String
  time : Option String := none
  deriving Repr, DecidableEq

inductive Line where
  | comment
  | help (name text : String)
  | type (name word : String)
  | sample (name : String) (reading : Reading)
  deriving Repr, DecidableEq

def words (cs : List Char) : List String :=
  ((Text.fields ' ' cs).filter (· ≠ [])).map String.ofList

def skipBlanks (cs : List Char) : List Char := cs.dropWhile (· == ' ')

def typeWords : List String := ["counter", "gauge", "histogram", "summary", "untyped"]

def readHelp (cs : List Char) : Option Line :=
  match Text.cut ' ' cs with
  | some (name, text) =>
    if isMetricName (String.ofList name) then
      (unescapeHelp text).map fun text => .help (String.ofList name) (String.ofList text)
    else none
  | none => none

def readType (cs : List Char) : Option Line :=
  match words cs with
  | [name, word] =>
    if isMetricName name && typeWords.contains word then some (.type name word) else none
  | _ => none

def readRemark (cs : List Char) : Option Line :=
  match Text.cut ' ' (skipBlanks cs) with
  | some (word, rest) =>
    if String.ofList word = "HELP" then readHelp (skipBlanks rest)
    else if String.ofList word = "TYPE" then readType rest
    else some .comment
  | none => some .comment

def readBraces : List Char → Option (List (String × String) × List Char)
  | '\x7b' :: rest => readLabels rest
  | ' ' :: rest => some ([], rest)
  | _ => none

def readNumbers (labels : List (String × String)) (cs : List Char) : Option Reading :=
  match words cs with
  | [value] => some ⟨labels, value, none⟩
  | [value, time] => some ⟨labels, value, some time⟩
  | _ => none

def isNameChar (c : Char) : Bool := c.isAlpha || c == '_' || c == ':' || c.isDigit

def readSample (cs : List Char) : Option Line :=
  let name := String.ofList (cs.takeWhile isNameChar)
  if isMetricName name then
    (readBraces (cs.dropWhile isNameChar)).bind fun (labels, rest) =>
      (readNumbers labels rest).map (.sample name)
  else none

def readLine (cs : List Char) : Option Line :=
  match skipBlanks cs with
  | [] => some .comment
  | '#' :: rest => readRemark rest
  | cs => readSample cs

structure Entry where
  name : String
  help : Option String := none
  type : Option String := none
  readings : List Reading := []
  deriving Repr, DecidableEq

/-- An entry with one more line: help and type come once, and before the first sample. -/
def Entry.accept (e : Entry) : Line → Option Entry
  | .comment => some e
  | .help _ text => if e.help = none ∧ e.readings = [] then some { e with help := text } else none
  | .type _ word => if e.type = none ∧ e.readings = [] then some { e with type := word } else none
  | .sample _ reading => some { e with readings := e.readings ++ [reading] }

/-- The entry of a metric, which is the last one or a new one, with the entries before it; the last
entry comes first. -/
def resume (name : String) : List Entry → Option (Entry × List Entry)
  | [] => some ({ name }, [])
  | e :: es =>
    if e.name = name then some (e, es)
    else if name ∈ es.map Entry.name then none
    else some ({ name }, e :: es)

def acceptLine (es : List Entry) (line : Line) : Option (List Entry) :=
  let about := fun name => (resume name es).bind fun (e, es) => (e.accept line).map (· :: es)
  match line with
  | .comment => some es
  | .help name _ => about name
  | .type name _ => about name
  | .sample name _ => about name

def readLines (es : List Entry) : List (List Char) → Option (List Entry)
  | [] => some es
  | cs :: rest => ((readLine cs).bind (acceptLine es)).bind fun es => readLines es rest

def readText (text : String) : Option (List Entry) :=
  let lines := Text.fields '\n' text.toList
  if lines.getLast? = some [] then (readLines [] lines.dropLast).map List.reverse else none

example : readText "# TYPE m gauge\n# written by hand\n\nm\x7ba=\"\\n\",\x7d 1  1700\nm 2\n" =
    some [⟨"m", none, some "gauge",
      [⟨[("a", "\n")], "1", some "1700"⟩, ⟨[], "2", none⟩]⟩] := by
  decide +kernel

end PgMetrics.Exposition
