import PgMetrics.Proofs.Decimal.Digits
import PgMetrics.Proofs.Exposition.Reading
import PgMetrics.Proofs.Exposition.Registering

/-! # What is written reads back

A registry whose metrics are declared legally under distinct names is written as a text that reads as
exactly its metrics, in order, each with its help, its kind and its samples.  Names hold none of the
characters that end them, and the escapes leave neither a line feed nor an open quote.  So whatever a
help or a label value holds, it stays within its line and its quotes.
-/
namespace PgMetrics.Exposition

section Escapes

@[simp] theorem unescapeHelp_escapeHelp (cs : List Char) :
    unescapeHelp (escapeHelp cs) = some cs := by
  induction cs using escapeHelp.induct with
  | case1 => rfl
  | case2 rest ih => simp [escapeHelp, unescapeHelp, ih]
  | case3 rest ih => simp [escapeHelp, unescapeHelp, ih]
  | case4 c rest hslash hfeed ih =>
    rw [escapeHelp, unescapeHelp, ih]
    all_goals first | rfl | simp_all

theorem readValue_escapeValue (cs rest : List Char) :
    readValue (escapeValue cs ++ '"' :: rest) = some (cs, rest) := by
  induction cs using escapeValue.induct with
  | case1 => rfl
  | case2 tail ih => simp [escapeValue, readValue, ih]
  | case3 tail ih => simp [escapeValue, readValue, ih]
  | case4 tail ih => simp [escapeValue, readValue, ih]
  | case5 c tail hslash hfeed hquote ih =>
    rw [escapeValue, List.cons_append, readValue, ih]
    all_goals first | rfl | simp_all

theorem feed_notMem_escapeHelp (cs : List Char) : '\n' ∉ escapeHelp cs := by
  induction cs using escapeHelp.induct with
  | case1 => simp [escapeHelp]
  | case2 rest ih => simpa [escapeHelp] using ih
  | case3 rest ih => simpa [escapeHelp] using ih
  | case4 c rest hslash hfeed ih =>
    rw [escapeHelp.eq_4 c rest hslash hfeed, List.mem_cons, not_or]
    exact ⟨fun h => hfeed h.symm, ih⟩

theorem feed_notMem_escapeValue (cs : List Char) : '\n' ∉ escapeValue cs := by
  induction cs using escapeValue.induct with
  | case1 => simp [escapeValue]
  | case2 rest ih => simpa [escapeValue] using ih
  | case3 rest ih => simpa [escapeValue] using ih
  | case4 rest ih => simpa [escapeValue] using ih
  | case5 c rest hslash hfeed hquote ih =>
    rw [escapeValue.eq_5 c rest hslash hfeed hquote, List.mem_cons, not_or]
    exact ⟨fun h => hfeed h.symm, ih⟩

end Escapes

section Words

theorem skipBlanks_append {l : List Char} (h : ' ' ∉ l) (hl : l ≠ []) (rest : List Char) :
    skipBlanks (l ++ rest) = l ++ rest := by
  cases l with
  | nil => exact absurd rfl hl
  | cons c l =>
    have hc : (c == ' ') = false := beq_false_of_ne fun heq => h (heq ▸ List.mem_cons_self)
    rw [List.cons_append, skipBlanks, List.dropWhile_cons_of_neg (by simp [hc])]

@[simp] theorem words_cons_blank (cs : List Char) : words (' ' :: cs) = words cs := by
  simp [words, Text.fields]

theorem words_of_word {s : String} (h : ' ' ∉ s.toList) (hs : s.toList ≠ []) :
    words s.toList = [s] := by
  simp [words, Text.fields_of_not_mem _ h, hs]

theorem words_word_append {s : String} (h : ' ' ∉ s.toList) (hs : s.toList ≠ [])
    (rest : List Char) : words (s.toList ++ ' ' :: rest) = s :: words rest := by
  simp [words, Text.fields_append_sep _ h, hs]

variable {s : String}

theorem isNameChar_of_metricName (h : isMetricName s = true) :
    ∀ c ∈ s.toList, isNameChar c = true := by
  unfold isMetricName at h
  cases hs : s.toList with
  | nil => exact fun c hc => absurd hc List.not_mem_nil
  | cons c rest =>
    rw [hs] at h
    simp only [isName, Bool.and_eq_true, List.all_eq_true] at h
    refine List.forall_mem_cons.mpr ⟨?_, h.2⟩
    rw [isNameChar, h.1, Bool.true_or]

theorem metricName_of_labelName (h : isLabelName s = true) : isMetricName s = true := by
  unfold isLabelName at h
  unfold isMetricName
  cases hs : s.toList with
  | nil =>
    rw [hs] at h
    cases h
  | cons c rest =>
    rw [hs] at h
    simp only [isName, Bool.or_false, Bool.and_eq_true, List.all_eq_true] at h ⊢
    refine ⟨by rw [h.1, Bool.true_or], fun d hd => ?_⟩
    rcases Bool.or_eq_true_iff.mp (h.2 d hd) with hopening | hdigit
    · rw [hopening, Bool.true_or, Bool.true_or]
    · rw [hdigit, Bool.or_true]

theorem toList_ne_nil_of_metricName (h : isMetricName s = true) : s.toList ≠ [] := by
  intro hs
  rw [isMetricName, hs] at h
  cases h

/-- A name ends before every other character. -/
theorem notMem_of_metricName (h : isMetricName s = true) {c : Char} (hc : isNameChar c = false) :
    c ∉ s.toList := by
  intro hmem
  rw [isNameChar_of_metricName h c hmem] at hc
  cases hc

theorem notMem_text (x : Float) {c : Char} (hc : Decimal.isSpelling c = false) :
    c ∉ (Decimal.text x).toList := by
  intro hmem
  rw [(Decimal.spelled_text x).2 c hmem] at hc
  cases hc

theorem words_text (x : Float) : words (Decimal.text x).toList = [Decimal.text x] :=
  words_of_word (notMem_text x (by decide)) (Decimal.spelled_text x).1

end Words

section Labels

def labelChars (label : String × String) : List Char :=
  label.1.toList ++ '=' :: '"' :: (escapeValue label.2.toList ++ ['"'])

def labelsChars (labels : List (String × String)) : List Char :=
  if labels = [] then [] else '\x7b' :: ([','].intercalate (labels.map labelChars) ++ ['\x7d'])

theorem toList_labelText (label : String × String) :
    (labelText label).toList = labelChars label := by
  simp [labelText, labelChars]

theorem toList_labelsText (labels : List (String × String)) :
    (labelsText labels).toList = labelsChars labels := by
  unfold labelsText labelsChars
  cases labels with
  | nil => rfl
  | cons label rest =>
    have hmap : (String.toList ∘ labelText) = labelChars := funext toList_labelText
    simp [String.toList_intercalate, hmap, toList_labelText]

theorem readLabel_labelChars {label : String × String} (h : isLabelName label.1 = true)
    (rest : List Char) : readLabel (labelChars label ++ rest) = some (label, rest) := by
  have hequals := notMem_of_metricName (metricName_of_labelName h) (c := '=') (by decide)
  have hcut : Text.cut '=' (labelChars label ++ rest) =
      some (label.1.toList, '"' :: (escapeValue label.2.toList ++ '"' :: rest)) := by
    rw [← Text.cut_append_sep '=' hequals]
    simp [labelChars]
  unfold readLabel
  rw [hcut]
  simp only [readValue_escapeValue, Option.map_some, String.ofList_toList]
  exact if_pos h

theorem readLabels_of_last {cs rest : List Char} {label : String × String}
    (h : readLabel cs = some (label, '\x7d' :: rest)) : readLabels cs = some ([label], rest) := by
  rw [readLabels]
  split <;> simp_all

theorem readLabels_of_comma {cs rest : List Char} {label : String × String}
    (h : readLabel cs = some (label, ',' :: rest)) :
    readLabels cs = (readLabels rest).map fun (labels, rest) => (label :: labels, rest) := by
  rw [readLabels]
  split <;> simp_all

theorem readLabels_intercalate (label : String × String) (labels : List (String × String))
    (h : ∀ l ∈ label :: labels, isLabelName l.1 = true) (rest : List Char) :
    readLabels ([','].intercalate ((label :: labels).map labelChars) ++ '\x7d' :: rest) =
      some (label :: labels, rest) := by
  induction labels generalizing label with
  | nil =>
    rw [List.map_singleton, List.intercalate_singleton]
    exact readLabels_of_last (readLabel_labelChars (h label List.mem_cons_self) _)
  | cons next labels ih =>
    have hnext := ih next fun l hl => h l (List.mem_cons_of_mem _ hl)
    have hlabel := readLabel_labelChars (h label List.mem_cons_self)
      (',' :: ([','].intercalate ((next :: labels).map labelChars) ++ '\x7d' :: rest))
    have hcs : [','].intercalate ((label :: next :: labels).map labelChars) ++ '\x7d' :: rest =
        labelChars label ++
          ',' :: ([','].intercalate ((next :: labels).map labelChars) ++ '\x7d' :: rest) := by
      simp [List.intercalate_cons_cons]
    rw [hcs, readLabels_of_comma hlabel, hnext, Option.map_some]

theorem notMem_intercalate {sep : List Char} {ls : List (List Char)} {c : Char} (hsep : c ∉ sep)
    (h : ∀ l ∈ ls, c ∉ l) : c ∉ sep.intercalate ls := by
  induction ls with
  | nil => exact List.not_mem_nil
  | cons l rest ih =>
    have hl := h l List.mem_cons_self
    have hrest := ih fun l' hl' => h l' (List.mem_cons_of_mem _ hl')
    cases rest with
    | nil => rwa [List.intercalate_singleton]
    | cons l' rest =>
      rw [List.intercalate_cons_cons, List.mem_append, List.mem_append]
      rintro ((hmem | hmem) | hmem)
      · exact hl hmem
      · exact hsep hmem
      · exact hrest hmem

theorem feed_notMem_labelsChars {labels : List (String × String)}
    (h : ∀ l ∈ labels, isLabelName l.1 = true) : '\n' ∉ labelsChars labels := by
  have hlabel : ∀ l ∈ labels, '\n' ∉ labelChars l := by
    intro l hl
    have hname := notMem_of_metricName (metricName_of_labelName (h l hl)) (c := '\n') (by decide)
    simp [labelChars, hname, feed_notMem_escapeValue]
  have hlabels : '\n' ∉ [','].intercalate (labels.map labelChars) :=
    notMem_intercalate (by decide) (List.forall_mem_map.mpr hlabel)
  unfold labelsChars
  split
  · exact List.not_mem_nil
  · simp [hlabels]

end Labels

section Lines

def helpChars (d : Declaration) : List Char :=
  "# HELP ".toList ++ (d.name.toList ++ ' ' :: escapeHelp d.help.toList)

def typeChars (d : Declaration) : List Char :=
  "# TYPE ".toList ++ (d.name.toList ++ ' ' :: d.kind.text.toList)

def sampleChars (name : String) (s : Sample) : List Char :=
  name.toList ++ (labelsChars s.labels ++ ' ' :: (Decimal.text s.value).toList)

def Metric.lines (m : Metric) : List (List Char) :=
  helpChars m.declaration :: typeChars m.declaration :: m.samples.map (sampleChars m.name)

theorem toList_sampleLine (name : String) (s : Sample) :
    (sampleLine name s).toList = sampleChars name s ++ ['\n'] := by
  simp [sampleLine, sampleChars, toList_labelsText]

theorem toList_declaringLines (word₁ word₂ name text₁ text₂ rest : String) :
    (word₁ ++ name ++ " " ++ text₁ ++ "\n" ++ word₂ ++ name ++ " " ++ text₂ ++ "\n" ++ rest).toList =
      word₁.toList ++ (name.toList ++ ' ' :: text₁.toList) ++ ['\n'] ++
        (word₂.toList ++ (name.toList ++ ' ' :: text₂.toList) ++ ['\n'] ++ rest.toList) := by
  simp

theorem Metric.toList_text (m : Metric) : m.text.toList = m.lines.flatMap (· ++ ['\n']) := by
  have hsamples : (String.join (m.samples.map (sampleLine m.name))).toList =
      (m.samples.map (sampleChars m.name)).flatMap (· ++ ['\n']) := by
    rw [String.toList_join, List.flatMap_map, List.flatMap_map]
    exact List.flatMap_congr fun s _ => toList_sampleLine m.name s
  have htext := toList_declaringLines "# HELP " "# TYPE " m.name
    (String.ofList (escapeHelp m.declaration.help.toList)) m.declaration.kind.text
    (String.join (m.samples.map (sampleLine m.name)))
  rw [String.toList_ofList (l := escapeHelp m.declaration.help.toList)] at htext
  rw [Metric.lines, List.flatMap_cons, List.flatMap_cons, ← hsamples]
  exact htext

theorem Registry.toList_text (r : Registry) :
    r.text.toList = (r.gather.flatMap Metric.lines).flatMap (· ++ ['\n']) := by
  rw [Registry.text, String.toList_join, List.flatMap_map, List.flatMap_assoc]
  exact List.flatMap_congr fun m _ => m.toList_text

theorem fields_lines {ls : List (List Char)} (h : ∀ l ∈ ls, '\n' ∉ l) :
    Text.fields '\n' (ls.flatMap (· ++ ['\n'])) = ls ++ [[]] := by
  induction ls with
  | nil => rfl
  | cons l rest ih =>
    rw [List.flatMap_cons, List.append_assoc, List.singleton_append,
      Text.fields_append_sep _ (h l List.mem_cons_self),
      ih fun l' hl' => h l' (List.mem_cons_of_mem _ hl'), List.cons_append]

theorem labelName_of_mem_samples {m : Metric} (h : m.declaration.fault? = none) {s : Sample}
    (hs : s ∈ m.samples) : ∀ l ∈ s.labels, isLabelName l.1 = true := by
  obtain ⟨t, _, rfl⟩ := Metric.mem_samples_iff.mp hs
  intro l hl
  rw [Series.sample, List.mem_mergeSort] at hl
  have hmem : l.1 ∈ m.declaration.labelNames := (List.of_mem_zip (a := l.1) (b := l.2) hl).1
  exact (Declaration.fault?_eq_none_iff.mp h).2.2.1 _ hmem

end Lines

def Sample.reading (s : Sample) : Reading := ⟨s.labels, Decimal.text s.value, none⟩

def Metric.entry (m : Metric) : Entry :=
  ⟨m.name, some m.declaration.help, some m.declaration.kind.text, m.samples.map Sample.reading⟩

theorem Metric.readings_ne_nil_iff (m : Metric) : m.entry.readings ≠ [] ↔ m.series ≠ [] := by
  have hlength : m.entry.readings.length = m.series.length := by
    simp [Metric.entry, Metric.samples]
  rw [← List.length_pos_iff, ← List.length_pos_iff, hlength]

section ReadLine
variable {d : Declaration}

theorem readLine_help (rest : List Char) :
    readLine ("# HELP ".toList ++ rest) = readHelp (skipBlanks rest) := by
  simp [readLine, readRemark, skipBlanks, Text.cut]

theorem readLine_type (rest : List Char) :
    readLine ("# TYPE ".toList ++ rest) = readType rest := by
  simp [readLine, readRemark, skipBlanks, Text.cut]

theorem readLine_helpChars (h : isMetricName d.name = true) :
    readLine (helpChars d) = some (.help d.name d.help) := by
  have hblank := notMem_of_metricName h (c := ' ') (by decide)
  have hne := toList_ne_nil_of_metricName h
  refine (readLine_help _).trans ?_
  rw [skipBlanks_append hblank hne, readHelp, Text.cut_append_sep _ hblank]
  simp [h]

theorem readLine_typeChars (h : isMetricName d.name = true) :
    readLine (typeChars d) = some (.type d.name d.kind.text) := by
  have hblank := notMem_of_metricName h (c := ' ') (by decide)
  have hword : words d.kind.text.toList = [d.kind.text] ∧ typeWords.contains d.kind.text = true := by
    cases d.kind <;> exact ⟨words_of_word (by decide) (by decide), by decide⟩
  refine (readLine_type _).trans ?_
  rw [readType, words_word_append hblank (toList_ne_nil_of_metricName h), hword.1]
  simp only [h, hword.2, Bool.and_self, if_true]

theorem readBraces_labelsChars {labels : List (String × String)}
    (h : ∀ l ∈ labels, isLabelName l.1 = true) (value : List Char) :
    ∃ rest, readBraces (labelsChars labels ++ ' ' :: value) = some (labels, rest) ∧
      words rest = words value := by
  cases labels with
  | nil => exact ⟨value, rfl, rfl⟩
  | cons label labels =>
    refine ⟨' ' :: value, ?_, words_cons_blank value⟩
    have hread := readLabels_intercalate label labels h (' ' :: value)
    simpa [labelsChars, readBraces] using hread

theorem readLine_of_name {name : String} (h : isMetricName name = true) (rest : List Char) :
    readLine (name.toList ++ rest) = readSample (name.toList ++ rest) := by
  have hblank := notMem_of_metricName h (c := ' ') (by decide)
  have hsign := notMem_of_metricName h (c := '#') (by decide)
  have hne := toList_ne_nil_of_metricName h
  unfold readLine
  rw [skipBlanks_append hblank hne]
  cases hname : name.toList with
  | nil => exact absurd hname hne
  | cons c cs =>
    have hc : c ≠ '#' := fun heq => hsign (hname ▸ heq ▸ List.mem_cons_self)
    rw [List.cons_append]
    split
    · rename_i heq
      cases heq
    · rename_i heq
      cases heq
      exact absurd rfl hc
    · rfl

theorem takeWhile_name {name : String} (h : isMetricName name = true) {c : Char}
    (hc : isNameChar c = false) (rest : List Char) :
    (name.toList ++ c :: rest).takeWhile isNameChar = name.toList ∧
      (name.toList ++ c :: rest).dropWhile isNameChar = c :: rest := by
  have hname := isNameChar_of_metricName h
  constructor
  · rw [List.takeWhile_append_of_pos hname, List.takeWhile_cons_of_neg (by simp [hc]),
      List.append_nil]
  · rw [List.dropWhile_append_of_pos hname, List.dropWhile_cons_of_neg (by simp [hc])]

theorem readLine_sampleChars {name : String} (h : isMetricName name = true) {s : Sample}
    (hs : ∀ l ∈ s.labels, isLabelName l.1 = true) :
    readLine (sampleChars name s) = some (.sample name s.reading) := by
  obtain ⟨rest, hbraces, hwords⟩ := readBraces_labelsChars hs (Decimal.text s.value).toList
  have hends : ∃ c tail, isNameChar c = false ∧
      labelsChars s.labels ++ ' ' :: (Decimal.text s.value).toList = c :: tail := by
    unfold labelsChars
    split
    · exact ⟨' ', _, by decide, rfl⟩
    · exact ⟨'\x7b', _, by decide, rfl⟩
  obtain ⟨c, tail, hc, heq⟩ := hends
  obtain ⟨htake, hdrop⟩ := takeWhile_name h hc tail
  rw [heq] at hbraces
  rw [sampleChars, readLine_of_name h, heq, readSample, htake, hdrop, hbraces]
  simp only [String.ofList_toList, h, if_true, Option.bind_some, readNumbers, hwords, words_text,
    Option.map_some, Sample.reading]

end ReadLine

section ReadLines
variable {es : List Entry}

theorem readLines_cons_eq {cs : List Char} {line : Line} {es' : List Entry}
    (hline : readLine cs = some line) (haccept : acceptLine es line = some es')
    (rest : List (List Char)) : readLines es (cs :: rest) = readLines es' rest := by
  rw [readLines, hline, Option.bind_some, haccept, Option.bind_some]

theorem readLines_append (as bs : List (List Char)) :
    readLines es (as ++ bs) = (readLines es as).bind fun es => readLines es bs := by
  induction as generalizing es with
  | nil => rfl
  | cons cs rest ih =>
    rw [List.cons_append, readLines, readLines]
    cases (readLine cs).bind (acceptLine es) with
    | none => rfl
    | some es' => exact ih

theorem resume_of_notMem {name : String} (h : name ∉ es.map Entry.name) :
    resume name es = some ({ name }, es) := by
  cases es with
  | nil => rfl
  | cons e es =>
    rw [List.map_cons, List.mem_cons, not_or] at h
    rw [resume, if_neg (Ne.symm h.1), if_neg h.2]

theorem resume_self (e : Entry) : resume e.name (e :: es) = some (e, es) := if_pos rfl

theorem readLines_samples {e : Entry} (h : isMetricName e.name = true) {ss : List Sample}
    (hss : ∀ s ∈ ss, ∀ l ∈ s.labels, isLabelName l.1 = true) :
    readLines (e :: es) (ss.map (sampleChars e.name)) =
      some ({ e with readings := e.readings ++ ss.map Sample.reading } :: es) := by
  induction ss generalizing e with
  | nil => simp [readLines]
  | cons s rest ih =>
    obtain ⟨hs, hrest⟩ := List.forall_mem_cons.mp hss
    have haccept : acceptLine (e :: es) (.sample e.name s.reading) =
        some ({ e with readings := e.readings ++ [s.reading] } :: es) := by
      simp only [acceptLine, resume_self, Option.bind_some]
      rfl
    rw [List.map_cons, readLines_cons_eq (readLine_sampleChars h hs) haccept]
    refine (ih (e := { e with readings := e.readings ++ [s.reading] }) h hrest).trans ?_
    simp

/-- The lines of a metric that is new open one entry, which says what the metric is. -/
theorem readLines_metric {m : Metric} (h : m.declaration.fault? = none)
    (hnew : m.name ∉ es.map Entry.name) : readLines es m.lines = some (m.entry :: es) := by
  have hname : isMetricName m.declaration.name = true := (Declaration.fault?_eq_none_iff.mp h).2.1
  let opened : Entry := ⟨m.name, some m.declaration.help, none, []⟩
  let declared : Entry := ⟨m.name, some m.declaration.help, some m.declaration.kind.text, []⟩
  have hhelp : acceptLine es (.help m.name m.declaration.help) = some (opened :: es) := by
    simp only [acceptLine, resume_of_notMem hnew, Option.bind_some]
    rfl
  have htype : acceptLine (opened :: es) (.type m.name m.declaration.kind.text) =
      some (declared :: es) := by
    simp only [acceptLine, show resume m.name (opened :: es) = some (opened, es) from resume_self _,
      Option.bind_some]
    rfl
  have hsamples : readLines (declared :: es) (m.samples.map (sampleChars declared.name)) =
      some ({ declared with readings := [] ++ m.samples.map Sample.reading } :: es) :=
    readLines_samples hname fun s hs => labelName_of_mem_samples h hs
  rw [Metric.lines, readLines_cons_eq (readLine_helpChars hname) hhelp,
    readLines_cons_eq (readLine_typeChars hname) htype]
  exact hsamples

/-- Metrics of new and distinct names are read one after the other. -/
theorem readLines_metrics {ms : List Metric} (h : ∀ m ∈ ms, m.declaration.fault? = none)
    (hdistinct : (ms.map Metric.name).Nodup)
    (hnew : ∀ m ∈ ms, m.name ∉ es.map Entry.name) :
    readLines es (ms.flatMap Metric.lines) = some ((ms.map Metric.entry).reverse ++ es) := by
  induction ms generalizing es with
  | nil => rfl
  | cons m rest ih =>
    rw [List.map_cons, List.nodup_cons] at hdistinct
    obtain ⟨hm, hrest⟩ := List.forall_mem_cons.mp h
    obtain ⟨hmnew, hrestnew⟩ := List.forall_mem_cons.mp hnew
    have hnew' : ∀ m' ∈ rest, m'.name ∉ (m.entry :: es).map Entry.name := by
      intro m' hm'
      rw [List.map_cons, List.mem_cons, not_or]
      refine ⟨?_, hrestnew m' hm'⟩
      intro (heq : m'.name = m.name)
      exact hdistinct.1 (heq ▸ List.mem_map_of_mem hm')
    -- the induction goes through with the names that were read before
    rw [List.flatMap_cons, readLines_append, readLines_metric hm hmnew, Option.bind_some,
      ih hrest hdistinct.2 hnew', List.map_cons, List.reverse_cons, List.append_assoc,
      List.singleton_append]

end ReadLines

theorem feed_notMem_lines {m : Metric} (h : m.declaration.fault? = none) :
    ∀ cs ∈ m.lines, '\n' ∉ cs := by
  have hname := notMem_of_metricName (c := '\n') (Declaration.fault?_eq_none_iff.mp h).2.1
    (by decide)
  have hkind : '\n' ∉ m.declaration.kind.text.toList := by
    cases m.declaration.kind <;> decide
  have hremark : ∀ {keyword text : List Char}, '\n' ∉ keyword → '\n' ∉ text →
      '\n' ∉ keyword ++ (m.declaration.name.toList ++ ' ' :: text) := by
    intro keyword text hkeyword htext
    simp [hkeyword, hname, htext]
  refine List.forall_mem_cons.mpr ⟨?_, List.forall_mem_cons.mpr ⟨?_, List.forall_mem_map.mpr ?_⟩⟩
  · exact hremark (by decide) (feed_notMem_escapeHelp _)
  · exact hremark (by decide) hkind
  · intro s hs
    have hlabels := feed_notMem_labelsChars (labelName_of_mem_samples h hs)
    have hvalue := notMem_text s.value (c := '\n') (by decide)
    have hname' : '\n' ∉ m.name.toList := hname
    simp [sampleChars, hname', hlabels, hvalue]

/-- What a registry of legal metrics is written as reads as the metrics that are written. -/
theorem Registry.readText_text {r : Registry} (h : ∀ m ∈ r.metrics, m.declaration.fault? = none)
    (hdistinct : (r.metrics.map Metric.name).Nodup) :
    readText r.text = some (r.gather.map Metric.entry) := by
  have hlegal : ∀ m ∈ r.gather, m.declaration.fault? = none :=
    fun m hm => h m ((r.mem_gather_iff m).mp hm).1
  have hfields : Text.fields '\n' r.text.toList = r.gather.flatMap Metric.lines ++ [[]] := by
    rw [r.toList_text, fields_lines]
    intro cs hcs
    obtain ⟨m, hm, hcs⟩ := List.mem_flatMap.mp hcs
    exact feed_notMem_lines (hlegal m hm) cs hcs
  rw [readText, hfields]
  simp only [List.getLast?_concat, List.dropLast_concat, if_true]
  rw [readLines_metrics hlegal (nodup_names_gather hdistinct) fun _ _ => List.not_mem_nil]
  simp

end PgMetrics.Exposition
