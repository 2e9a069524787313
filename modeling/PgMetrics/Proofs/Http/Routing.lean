import PgMetrics.Configuration
import PgMetrics.Proofs.Service.Request
import PgMetrics.Proofs.Text.Fields

/-! # Paths that the metrics can have

A path makes a route if it is written in the grammar of routes, and that route need not take the
path that it is written as, since doubled braces stand for single ones.  Any absolute path but that
of the health check is accepted for the metrics; so some accepted paths make no route, and some make
one that leads elsewhere.
-/
namespace PgMetrics.Http

def doubled : List Char → List Char
  | [] => []
  | c :: rest => if c = '\x7b' ∨ c = '\x7d' then c :: c :: doubled rest else c :: doubled rest

theorem doubled_brace {c : Char} (h : c = '\x7b' ∨ c = '\x7d') (rest : List Char) :
    doubled (c :: rest) = c :: c :: doubled rest := if_pos h

theorem doubled_plain {c : Char} (h : ¬ (c = '\x7b' ∨ c = '\x7d')) (rest : List Char) :
    doubled (c :: rest) = c :: doubled rest := if_neg h

theorem doubled_append (cs ds : List Char) : doubled (cs ++ ds) = doubled cs ++ doubled ds := by
  induction cs with
  | nil => rfl
  | cons c rest ih =>
    by_cases h : c = '\x7b' ∨ c = '\x7d'
    · rw [List.cons_append, doubled_brace h, doubled_brace h, ih, List.cons_append,
        List.cons_append]
    · rw [List.cons_append, doubled_plain h, doubled_plain h, ih, List.cons_append]

theorem length_le_doubled (cs : List Char) : cs.length ≤ (doubled cs).length := by
  induction cs with
  | nil => exact Nat.le_refl _
  | cons c rest ih =>
    by_cases h : c = '\x7b' ∨ c = '\x7d'
    · rw [doubled_brace h, List.length_cons, List.length_cons, List.length_cons]
      omega
    · rw [doubled_plain h, List.length_cons, List.length_cons]
      omega

/-- Only braces are written otherwise than they read. -/
theorem doubled_eq_self_iff {cs : List Char} :
    doubled cs = cs ↔ '\x7b' ∉ cs ∧ '\x7d' ∉ cs := by
  induction cs with
  | nil => simp [doubled]
  | cons c rest ih =>
    by_cases h : c = '\x7b' ∨ c = '\x7d'
    · have hlength := length_le_doubled rest
      rw [doubled_brace h]
      constructor
      · intro heq
        have hlengths := congrArg List.length heq
        simp only [List.length_cons] at hlengths
        omega
      · rcases h with rfl | rfl <;> simp
    · rw [doubled_plain h]
      simp only [not_or] at h
      simp [ih, Ne.symm h.1, Ne.symm h.2]

def IsName (name : List Char) : Prop :=
  name ≠ [] ∧ '\x7b' ∉ name ∧ '\x7d' ∉ name ∧ '*' ∉ name

instance : DecidablePred IsName := fun _ => inferInstanceAs (Decidable (_ ∧ _ ∧ _ ∧ _))

namespace Segment

def written : Segment → List Char
  | literal text => doubled text
  | capture lead name => doubled lead ++ '\x7b' :: (name ++ ['\x7d'])
  | remainder lead name => doubled lead ++ '\x7b' :: '*' :: (name ++ ['\x7d'])

def Named : Segment → Prop
  | literal _ => True
  | capture _ name => IsName name
  | remainder _ name => IsName name

instance : DecidablePred Named
  | literal _ => isTrue trivial
  | capture _ name => inferInstanceAs (Decidable (IsName name))
  | remainder _ name => inferInstanceAs (Decidable (IsName name))

structure Legal (s : Segment) : Prop where
  named : s.Named
  colon : s.written.head? ≠ some ':'
  star : s.written.head? ≠ some '*'

instance : DecidablePred Legal := fun s =>
  decidable_of_iff (s.Named ∧ s.written.head? ≠ some ':' ∧ s.written.head? ≠ some '*')
    ⟨fun h => ⟨h.1, h.2.1, h.2.2⟩, fun h => ⟨h.named, h.colon, h.star⟩⟩

def isRemainder : Segment → Bool
  | remainder _ _ => true
  | _ => false

/-- Whether a segment takes the text that it is written as. -/
def Faithful : Segment → Prop
  | literal text => '\x7b' ∉ text ∧ '\x7d' ∉ text
  | capture lead name => lead <+: (capture lead name).written
  | remainder lead name => lead <+: (remainder lead name).written

instance : DecidablePred Faithful
  | literal text => inferInstanceAs (Decidable ('\x7b' ∉ text ∧ '\x7d' ∉ text))
  | capture lead name => inferInstanceAs (Decidable (lead <+: (capture lead name).written))
  | remainder lead name => inferInstanceAs (Decidable (lead <+: (remainder lead name).written))

end Segment

/-- Legal segments, of which only the last may take the rest of the path. -/
def IsRoute : List Segment → Prop
  | [] => True
  | s :: rest => s.Legal ∧ (s.isRemainder = true → rest = []) ∧ IsRoute rest

instance decidableIsRoute : DecidablePred IsRoute
  | [] => isTrue trivial
  | s :: rest =>
    have := decidableIsRoute rest
    inferInstanceAs (Decidable (s.Legal ∧ (s.isRemainder = true → rest = []) ∧ IsRoute rest))

/-- What stands before the first closing brace has none, so the test of a name need not look. -/
theorem test_name_iff {name : List Char} (h : '\x7d' ∉ name) :
    ¬ (name.isEmpty || name.contains '\x7b' || name.contains '*') = true ↔ IsName name := by
  simp [IsName, h, and_assoc]

theorem segmentFrom_capture (lead : List Char) {name : List Char} (h : IsName name) :
    segmentFrom lead ('\x7b' :: (name ++ ['\x7d'])) = .ok (.capture lead name) := by
  rw [segmentFrom.eq_4, Text.cut_append_sep '\x7d' h.2.2.1]
  · split
    next heq =>
      cases heq
      exact absurd List.mem_cons_self h.2.2.2
    next heq =>
      cases heq
      exact if_neg ((test_name_iff h.2.2.1).mpr h)
    next hother => exact absurd rfl (hother name)
  · intro rest heq
    cases name with
    | nil => exact h.1 rfl
    | cons c more =>
      cases heq
      exact h.2.1 List.mem_cons_self

theorem segmentFrom_remainder (lead : List Char) {name : List Char} (h : IsName name) :
    segmentFrom lead ('\x7b' :: '*' :: (name ++ ['\x7d'])) = .ok (.remainder lead name) := by
  have hclose : '\x7d' ∉ '*' :: name := by simpa using h.2.2.1
  have hcut := Text.cut_append_sep '\x7d' hclose []
  rw [List.cons_append] at hcut
  rw [segmentFrom.eq_4 _ _ (by simp), hcut]
  exact if_neg ((test_name_iff h.2.2.1).mpr h)

theorem segmentFrom_doubled (lead cs rest : List Char) :
    segmentFrom lead (doubled cs ++ rest) = segmentFrom (lead ++ cs) rest := by
  induction cs generalizing lead with
  | nil => rw [doubled, List.nil_append, List.append_nil]
  | cons c more ih =>
    have hstep : segmentFrom lead (doubled (c :: more) ++ rest) =
        segmentFrom (lead ++ [c]) (doubled more ++ rest) := by
      by_cases h : c = '\x7b' ∨ c = '\x7d'
      · rw [doubled_brace h]
        rcases h with rfl | rfl
        · exact segmentFrom.eq_2 _ _
        · exact segmentFrom.eq_3 _ _
      · rw [doubled_plain h]
        simp only [not_or] at h
        exact segmentFrom.eq_6 _ _ _ (fun _ hc => absurd hc h.1) (fun _ hc => absurd hc h.2) h.1 h.2
    rw [hstep, ih, List.append_assoc, List.singleton_append]

/-- A segment is read back from how it is written. -/
theorem segmentFrom_written {s : Segment} (h : s.Named) : segmentFrom [] s.written = .ok s := by
  cases s with
  | literal text =>
    rw [Segment.written, ← List.append_nil (doubled text), segmentFrom_doubled]
    exact segmentFrom.eq_1 _
  | capture lead name =>
    rw [Segment.written, segmentFrom_doubled]
    exact segmentFrom_capture lead h
  | remainder lead name =>
    rw [Segment.written, segmentFrom_doubled]
    exact segmentFrom_remainder lead h

/-- What is read is how the segment is written, and what may be a name is the name of a capture. -/
theorem written_of_segmentFrom {lead cs : List Char} {s : Segment}
    (h : segmentFrom lead cs = .ok s) : s.written = doubled lead ++ cs ∧ s.Named := by
  induction lead, cs using segmentFrom.induct with
  | case1 lead =>
    rw [segmentFrom.eq_1] at h
    cases h
    exact ⟨(List.append_nil _).symm, trivial⟩
  | case2 lead rest ih =>
    rw [segmentFrom.eq_2] at h
    obtain ⟨hwritten, hnamed⟩ := ih h
    rw [doubled_append] at hwritten
    exact ⟨by simpa [doubled] using hwritten, hnamed⟩
  | case3 lead rest ih =>
    rw [segmentFrom.eq_3] at h
    obtain ⟨hwritten, hnamed⟩ := ih h
    rw [doubled_append] at hwritten
    exact ⟨by simpa [doubled] using hwritten, hnamed⟩
  | case4 lead rest hopen name hcut htest =>
    rw [segmentFrom.eq_4 _ _ hopen, hcut] at h
    cases (if_pos htest).symm.trans h
  | case5 lead rest hopen name hcut htest =>
    rw [segmentFrom.eq_4 _ _ hopen, hcut] at h
    cases (if_neg htest).symm.trans h
    have hclose := List.not_mem_of_not_mem_cons (Text.notMem_of_cut hcut)
    refine ⟨?_, (test_name_iff hclose).mp htest⟩
    rw [Segment.written, Text.eq_of_cut hcut]
    rfl
  | case6 lead rest hopen name hstar hcut htest =>
    rw [segmentFrom.eq_4 _ _ hopen, hcut] at h
    split at h
    next heq =>
      cases heq
      exact absurd rfl (hstar _)
    next heq =>
      cases heq
      rw [if_pos htest] at h
      cases h
    next => cases h
  | case7 lead rest hopen name hstar hcut htest =>
    rw [segmentFrom.eq_4 _ _ hopen, hcut] at h
    split at h
    next heq =>
      cases heq
      exact absurd rfl (hstar _)
    next heq =>
      cases heq
      rw [if_neg htest] at h
      cases h
      refine ⟨?_, (test_name_iff (Text.notMem_of_cut hcut)).mp htest⟩
      rw [Segment.written, Text.eq_of_cut hcut]
    next => cases h
  | case8 lead rest hopen hremainder hcapture =>
    rw [segmentFrom.eq_4 _ _ hopen] at h
    split at h
    next heq => exact absurd heq (hremainder _)
    next heq => exact absurd heq (hcapture _)
    next => cases h
  | case9 lead tail hclose =>
    rw [segmentFrom.eq_5 _ _ hclose] at h
    cases h
  | case10 lead c rest hopens hcloses hopen hclose ih =>
    rw [segmentFrom.eq_6 _ _ _ hopens hcloses hopen hclose] at h
    obtain ⟨hwritten, hnamed⟩ := ih h
    rw [doubled_append, doubled_plain (not_or.mpr ⟨hopen, hclose⟩)] at hwritten
    exact ⟨by simpa [doubled] using hwritten, hnamed⟩

theorem segment?_of_head {cs : List Char} (hcolon : cs.head? ≠ some ':')
    (hstar : cs.head? ≠ some '*') : segment? cs = segmentFrom [] cs := by
  unfold segment?
  split
  · exact absurd rfl hcolon
  · exact absurd rfl hstar
  · rfl

/-- A segment has one written form, and every legal one is read. -/
theorem segment?_eq_ok_iff {cs : List Char} {s : Segment} :
    segment? cs = .ok s ↔ cs = s.written ∧ s.Legal := by
  constructor
  · intro h
    have hcolon : cs.head? ≠ some ':' := by
      intro hhead
      obtain ⟨rest, rfl⟩ := List.head?_eq_some_iff.mp hhead
      cases h
    have hstar : cs.head? ≠ some '*' := by
      intro hhead
      obtain ⟨rest, rfl⟩ := List.head?_eq_some_iff.mp hhead
      cases h
    rw [segment?_of_head hcolon hstar] at h
    obtain ⟨hwritten, hnamed⟩ := written_of_segmentFrom h
    rw [doubled, List.nil_append] at hwritten
    exact ⟨hwritten.symm, hnamed, hwritten ▸ hcolon, hwritten ▸ hstar⟩
  · rintro ⟨rfl, hlegal⟩
    rw [segment?_of_head hlegal.colon hlegal.star]
    exact segmentFrom_written hlegal.named

theorem segments?_cons_eq_ok {f : List Char} {rest : List (List Char)} {segments : List Segment}
    (h : segments? (f :: rest) = .ok segments) :
    ∃ s more, segment? f = .ok s ∧ segments? rest = .ok more ∧ segments = s :: more ∧
      (s.isRemainder = true → more = []) := by
  rw [segments?] at h
  split at h
  · cases h
  · cases h
  next lead name more hs hrest =>
    split at h
    next hlast =>
      cases h
      obtain rfl := List.isEmpty_iff.mp hlast
      exact ⟨_, [], hs, hrest, rfl, fun _ => rfl⟩
    next => cases h
  next s more hplain hs hrest =>
    cases h
    refine ⟨s, more, hs, hrest, rfl, fun hremainder => ?_⟩
    cases s with
    | remainder lead name => exact absurd rfl (hplain lead name)
    | literal text => cases hremainder
    | capture lead name => cases hremainder

theorem segments?_cons {f : List Char} {rest : List (List Char)} {s : Segment}
    {more : List Segment} (hs : segment? f = .ok s) (hrest : segments? rest = .ok more)
    (hlast : s.isRemainder = true → more = []) : segments? (f :: rest) = .ok (s :: more) := by
  rw [segments?, hs, hrest]
  cases s with
  | remainder lead name =>
    obtain rfl := hlast rfl
    rfl
  | literal text => rfl
  | capture lead name => rfl

/-- The grammar of routes. -/
theorem segments?_eq_ok_iff {fs : List (List Char)} {segments : List Segment} :
    segments? fs = .ok segments ↔ fs = segments.map Segment.written ∧ IsRoute segments := by
  induction fs generalizing segments with
  | nil =>
    constructor
    · intro h
      cases h
      exact ⟨rfl, trivial⟩
    · rintro ⟨hnil, -⟩
      obtain rfl := List.map_eq_nil_iff.mp hnil.symm
      rfl
  | cons f rest ih =>
    constructor
    · intro h
      obtain ⟨s, more, hs, hrest, rfl, hlast⟩ := segments?_cons_eq_ok h
      obtain ⟨rfl, hlegal⟩ := segment?_eq_ok_iff.mp hs
      obtain ⟨rfl, hmore⟩ := ih.mp hrest
      exact ⟨rfl, hlegal, hlast, hmore⟩
    · rintro ⟨hwritten, hroute⟩
      cases segments with
      | nil => cases hwritten
      | cons s more =>
        cases hwritten
        obtain ⟨hlegal, hlast, hmore⟩ := hroute
        exact segments?_cons (segment?_eq_ok_iff.mpr ⟨rfl, hlegal⟩) (ih.mpr ⟨rfl, hmore⟩) hlast

theorem extends?_iff {lead tail : List Char} (h : tail ≠ []) :
    extends? lead (doubled lead ++ tail) = true ↔ lead <+: doubled lead ++ tail := by
  have hlength := length_le_doubled lead
  have htail := List.length_pos_iff.mpr h
  simp only [extends?, Bool.and_eq_true, List.isPrefixOf_iff_prefix, decide_eq_true_eq,
    List.length_append, and_iff_left_iff_imp]
  omega

/-- A route takes the path that it is written as just if each of its segments does. -/
theorem takes_written_iff {segments : List Segment} (h : IsRoute segments) :
    takes segments (segments.map Segment.written) = true ↔ ∀ s ∈ segments, s.Faithful := by
  induction segments with
  | nil => simp [takes]
  | cons s rest ih =>
    obtain ⟨-, hlast, hrest⟩ := h
    rw [List.map_cons, List.forall_mem_cons, ← ih hrest]
    cases s with
    | literal text =>
      simp only [takes, Bool.and_eq_true, beq_iff_eq]
      rw [Segment.written, doubled_eq_self_iff]
      rfl
    | capture lead name =>
      simp only [takes, Bool.and_eq_true]
      rw [Segment.written, extends?_iff (List.cons_ne_nil _ _)]
      rfl
    | remainder lead name =>
      obtain rfl := hlast rfl
      simp only [takes, List.map_nil, Text.joinFields, and_true]
      rw [Segment.written, extends?_iff (List.cons_ne_nil _ _)]
      rfl

section
variable {path : String}

theorem accepted_iff :
    PathFault.find? path = none ↔ path.toList.head? = some '/' ∧ path ≠ healthPath := by
  unfold PathFault.find?
  split
  next h => simp [h]
  next h =>
    split
    next hhealth => simp [hhealth]
    next hhealth => simpa [hhealth] using h

theorem route?_of_head (h : path.toList.head? = some '/') :
    route? path = segments? (pathSegments path) := by
  unfold route?
  split
  next heq =>
    rw [heq] at h
    cases h
  next => rfl
  next hother =>
    obtain ⟨rest, hrest⟩ := List.head?_eq_some_iff.mp h
    exact absurd hrest (hother rest)

/-- A path is found again from its segments. -/
theorem toList_eq_of_pathSegments (h : path.toList.head? = some '/') :
    path.toList = '/' :: Text.joinFields '/' (pathSegments path) := by
  obtain ⟨rest, hrest⟩ := List.head?_eq_some_iff.mp h
  rw [pathSegments, hrest, Text.fields, if_pos rfl, List.drop_one, List.tail_cons,
    Text.joinFields_fields]

/-- No accepted path becomes the route of the health check. -/
theorem ofMetricsPath?_eq_ok_iff (h : PathFault.find? path = none) {routes : Routes} :
    Routes.ofMetricsPath? path = .ok routes ↔
      pathSegments path = routes.metrics.map Segment.written ∧ IsRoute routes.metrics := by
  obtain ⟨hslash, hhealth⟩ := accepted_iff.mp h
  rw [← segments?_eq_ok_iff, Routes.ofMetricsPath?, route?_of_head hslash]
  cases hsegments : segments? (pathSegments path) with
  | error fault => simp
  | ok segments =>
    have hfree : segments ≠ [.literal (healthPath.toList.drop 1)] := by
      rintro rfl
      have hpath := toList_eq_of_pathSegments hslash
      rw [(segments?_eq_ok_iff.mp hsegments).1] at hpath
      exact hhealth (String.toList_inj.mp hpath)
    simp only [if_neg hfree, Except.ok.injEq]
    constructor
    · rintro rfl
      rfl
    · rintro rfl
      rfl

/-- Accepted, and yet no route. -/
example : PathFault.find? "/:db" = none ∧ Routes.ofMetricsPath? "/:db" = .error .colon := by
  decide +kernel

theorem endpoint?_health (routes : Routes) : routes.endpoint? healthPath = some .health :=
  if_pos rfl

theorem endpoint?_eq_metrics_iff (h : PathFault.find? path = none) (routes : Routes) :
    routes.endpoint? path = some .metrics ↔ takes routes.metrics (pathSegments path) = true := by
  obtain ⟨hslash, hhealth⟩ := accepted_iff.mp h
  simp [Routes.endpoint?, hhealth, hslash]

end
end PgMetrics.Http

namespace PgMetrics.Service

open Http

variable {σ κ : Type} (s : Service σ κ)

/-- Whether a service answers under a path for the metrics: there are routes, a GET of that very path
is answered with the metrics, and a GET of the health check with its report. -/
def Answers (path : String) : Prop :=
  ∃ routes, Routes.ofMetricsPath? path = .ok routes ∧ ∀ r : Request, r.method = "GET" →
    (r.path = path → s.answer routes r = s.metricsAnswer r.query) ∧
    (r.path = healthPath → s.answer routes r = s.healthAnswer)

theorem answer_missing {routes : Routes} {r : Request} (hpath : routes.endpoint? r.path = none) :
    s.answer routes r = pure { status := 404 } := by
  rw [answer, hpath]

theorem status_metricsReply (os : List Observation) : (s.metricsReply os).status ≠ 404 := by
  unfold metricsReply
  split <;> simp

/-- The metrics are never answered as if there were none. -/
theorem metricsAnswer_ne_missing (query : String) :
    s.metricsAnswer query ≠ pure { status := 404 } := by
  rw [metricsAnswer_eq]
  split
  · intro h
    cases h
  · intro h
    cases hscrape : s.scrape (requestedScrapers query) with
    | done os =>
      rw [hscrape] at h
      exact s.status_metricsReply os (congrArg Answer.status (Activity.done.inj h))
    | note event rest =>
      rw [hscrape] at h
      cases h
    | access change rest =>
      rw [hscrape] at h
      cases h
    | wait span rest =>
      rw [hscrape] at h
      cases h

theorem answers_iff_endpoint {path : String} (h : PathFault.find? path = none) :
    s.Answers path ↔ ∃ routes, Routes.ofMetricsPath? path = .ok routes ∧
      routes.endpoint? path = some .metrics := by
  constructor
  · rintro ⟨routes, hroutes, hanswers⟩
    refine ⟨routes, hroutes, ?_⟩
    have hmetrics := (hanswers ⟨"GET", path, "", []⟩ rfl).1 rfl
    cases hendpoint : routes.endpoint? path with
    | none =>
      rw [answer_missing s hendpoint] at hmetrics
      exact absurd hmetrics.symm (s.metricsAnswer_ne_missing "")
    | some endpoint =>
      cases endpoint with
      | metrics => rfl
      | health =>
        have hhealth := (accepted_iff.mp h).2
        simp [Routes.endpoint?, hhealth] at hendpoint
  · rintro ⟨routes, hroutes, hendpoint⟩
    refine ⟨routes, hroutes, fun r hmethod => ⟨?_, ?_⟩⟩
    · rintro rfl
      exact s.answer_of_get hmethod hendpoint
    · intro hpath
      exact s.answer_of_get hmethod (hpath ▸ endpoint?_health routes)

/-- An accepted path serves just if it is written as a route whose segments take the texts that they
are written as: none begins with a colon or a star, braces enclose a name at the end of a segment or
are doubled, only the last segment takes the rest of the path, and plain segments have no brace. -/
theorem answers_iff {path : String} (h : PathFault.find? path = none) :
    s.Answers path ↔ ∃ segments, pathSegments path = segments.map Segment.written ∧
      IsRoute segments ∧ ∀ segment ∈ segments, segment.Faithful := by
  rw [s.answers_iff_endpoint h]
  constructor
  · rintro ⟨routes, hroutes, hendpoint⟩
    obtain ⟨hwritten, hroute⟩ := (ofMetricsPath?_eq_ok_iff h).mp hroutes
    rw [endpoint?_eq_metrics_iff h, hwritten, takes_written_iff hroute] at hendpoint
    exact ⟨routes.metrics, hwritten, hroute, hendpoint⟩
  · rintro ⟨segments, hwritten, hroute, hfaithful⟩
    refine ⟨⟨segments⟩, (ofMetricsPath?_eq_ok_iff h).mpr ⟨hwritten, hroute⟩, ?_⟩
    rw [endpoint?_eq_metrics_iff h, hwritten]
    exact (takes_written_iff hroute).mpr hfaithful

/-- A capture takes its own written form. -/
theorem answers_iff_captured :
    let s : Service Rehearsal.Server Nat := {
      gateway := Rehearsal.Server.wire.gateway 5000
      target := ⟨⟨"localhost", 5432, none, "postgres", none, none, .prefer, none, none⟩, "postgres"⟩
      scrapers := ⟨[], []⟩
      excluded := []
      timeout := 10000 }
    let path := "/db-\x7bname\x7d/metrics"
    PathFault.find? path = none ∧ s.Answers path := by
  intro s path
  have haccepted : PathFault.find? path = none := by decide +kernel
  exact ⟨haccepted, (answers_iff s haccepted).mpr
    ⟨[.capture "db-".toList "name".toList, .literal "metrics".toList], by decide +kernel,
      by decide +kernel, by decide +kernel⟩⟩

/-- Doubled braces are accepted, and the route that they make is not the path that was given. -/
theorem doubled_not_answered :
    PathFault.find? "/\x7b\x7bx\x7d\x7d" = none ∧
      ∀ (σ κ : Type) (s : Service σ κ), ¬ s.Answers "/\x7b\x7bx\x7d\x7d" := by
  have haccepted : PathFault.find? "/\x7b\x7bx\x7d\x7d" = none := by decide +kernel
  refine ⟨haccepted, fun σ κ s hanswers => ?_⟩
  have hroutes : Routes.ofMetricsPath? "/\x7b\x7bx\x7d\x7d" =
      .ok ⟨[.literal "\x7bx\x7d".toList]⟩ := by decide +kernel
  obtain ⟨routes, hok, hendpoint⟩ := (s.answers_iff_endpoint haccepted).mp hanswers
  rw [hroutes] at hok
  cases hok
  exact absurd hendpoint (by decide +kernel)

end PgMetrics.Service
