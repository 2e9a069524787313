import PgMetrics.Exposition.Registry
import PgMetrics.Decimal.Shortest

/-! # The text exposition format

Metrics are written in the order of their names, the labels of a sample in the order of the label
names and the samples of a metric in the order of their label values.  A metric without samples is
left out.
-/
namespace PgMetrics.Exposition

structure Sample where
  labels : List (String × String)
  value : Float
  deriving Repr, BEq

def valuesLe : List String → List String → Bool
  | [], _ => true
  | _ :: _, [] => false
  | a :: as, b :: bs => a < b || (a == b && valuesLe as bs)

def Series.sample (labelNames : List String) (s : Series) : Sample :=
  ⟨(labelNames.zip s.labelValues).mergeSort (fun a b => a.1 ≤ b.1), s.value⟩

def Metric.samples (m : Metric) : List Sample :=
  (m.series.map (Series.sample m.declaration.labelNames)).mergeSort fun a b =>
    valuesLe (a.labels.map Prod.snd) (b.labels.map Prod.snd)

def Registry.gather (r : Registry) : List Metric :=
  (r.metrics.filter fun m => !m.series.isEmpty).mergeSort fun a b => a.name ≤ b.name

def escapeHelp : List Char → List Char
  | [] => []
  | '\\' :: rest => '\\' :: '\\' :: escapeHelp rest
  | '\n' :: rest => '\\' :: 'n' :: escapeHelp rest
  | c :: rest => c :: escapeHelp rest

def escapeValue : List Char → List Char
  | [] => []
  | '\\' :: rest => '\\' :: '\\' :: escapeValue rest
  | '\n' :: rest => '\\' :: 'n' :: escapeValue rest
  | '"' :: rest => '\\' :: '"' :: escapeValue rest
  | c :: rest => c :: escapeValue rest

def labelText (label : String × String) : String :=
  label.1 ++ "=\"" ++ String.ofList (escapeValue label.2.toList) ++ "\""

def labelsText (labels : List (String × String)) : String :=
  if labels.isEmpty then "" else "\x7b" ++ ",".intercalate (labels.map labelText) ++ "\x7d"

def sampleLine (name : String) (s : Sample) : String :=
  name ++ labelsText s.labels ++ " " ++ Decimal.text s.value ++ "\n"

def Metric.text (m : Metric) : String :=
  "# HELP " ++ m.name ++ " " ++ String.ofList (escapeHelp m.declaration.help.toList) ++ "\n" ++
    "# TYPE " ++ m.name ++ " " ++ m.declaration.kind.text ++ "\n" ++
    String.join (m.samples.map (sampleLine m.name))

def Registry.text (r : Registry) : String := String.join (r.gather.map Metric.text)

end PgMetrics.Exposition
