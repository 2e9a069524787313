import PgMetrics.Proofs.Activity.Path
import PgMetrics.Proofs.Scraper.Limited

/-! # Paths of scrapers

What a run may come to while the server changes under it and wherever it is dropped.  Only the caches
have to be left alone by others.
-/
namespace PgMetrics

abbrev Log := List (Nat × Event)

namespace Log

def events (log : Log) : List Event := log.map Prod.snd

def results (log : Log) : List Observation := Event.results log.events

/-- What adds nothing to the result. -/
def aside (log : Log) : Log := log.filter fun e => e.2.observation?.isNone

@[simp] theorem events_append (log es : Log) : events (log ++ es) = log.events ++ es.events :=
  List.map_append

@[simp] theorem results_append (log es : Log) : results (log ++ es) = log.results ++ es.results := by
  simp [results]

@[simp] theorem events_aside (log : Log) : log.aside.events = Event.aside log.events := by
  rw [aside, events, events, Event.aside, List.filter_map]
  rfl

@[simp] theorem results_aside (log : Log) : log.aside.results = [] := by
  simp [results]

@[simp] theorem results_observed (time : Nat) (os : List Observation) :
    results ((os.map Event.observed).map (Prod.mk time)) = os := by
  simp [results, events, Function.comp_def, Event.results, List.filterMap_map, Event.observation?]

theorem mem_results {log : Log} {o : Observation} :
    o ∈ log.results ↔ ∃ time, (time, .observed o) ∈ log := by
  simp only [results, Event.results, events, List.mem_filterMap, List.mem_map]
  constructor
  · rintro ⟨_, ⟨⟨time, e⟩, he, rfl⟩, ho⟩
    cases e <;> cases ho
    exact ⟨time, he⟩
  · rintro ⟨time, he⟩
    exact ⟨_, ⟨_, he, rfl⟩, rfl⟩

theorem flatMap_withhold (log : Log) :
    (log.flatMap fun e => (Event.withhold e.2).map (Prod.mk e.1)) = log.aside := by
  induction log with
  | nil => rfl
  | cons e rest ih =>
    obtain ⟨time, e⟩ := e
    rw [List.flatMap_cons, ih]
    cases e <;> simp [Event.withhold, aside, Event.observation?]

end Log

namespace Scraper

open Activity (Path)

variable {σ κ α γ δ : Type} {view : World σ → γ} {time time' : Nat} {w w' : World σ} {es : Log}

section
variable (look : σ → δ) (hlook : ∀ w w', view w = view w' → look w.server = look w'.server)

include hlook

theorem path_onServer {a : Activity σ Event α} {v : Option α}
    (h : Path view (onServer a) time w es time' w' v) :
    Path look a time w.server es time' w'.server v :=
  Path.of_within World.server (fun s w => { w with server := s }) hlook (fun _ _ => rfl) h

theorem path_asking {q : Query σ α} {v : Option (Except Failure α)}
    (h : Path view (asking q) time w es time' w' v) :
    es = [] ∧ Path look q time w.server [] time' w'.server v := by
  obtain ⟨es₀, hquery, rfl⟩ := (path_onServer look hlook h).of_flatMapEvents
  cases es₀ with
  | nil => exact ⟨rfl, hquery⟩
  | cons e _ => exact e.2.elim

end

section
variable (hview : ∀ w w', view w = view w' → w.caches = w'.caches)

include hview

theorem caches_of_onServer {a : Activity σ Event α} {v : Option α}
    (h : Path view (onServer a) time w es time' w' v) : w.caches = w'.caches :=
  Path.aside_of_within World.server (fun s w => { w with server := s }) World.caches hview
    (fun _ _ => rfl) h

theorem path_direct {source : Source σ κ} {session : Session κ} {version : Version}
    {v : Option Verdict}
    (h : Path view ((direct source).run session version) time w es time' w' v) :
    w.caches = w'.caches ∧ ∃ (made : List (Nat × Observation)) (s' : σ),
      Path (fun _ => ()) (source.run session version) time w.server made time' s' v ∧
        es = (time, .started source.name session.database time) ::
          made.flatMap fun e => (Event.ofSource e.2).map (Prod.mk e.1) := by
  obtain ⟨rest, hrest, hes⟩ := h.of_now_bind.of_emit_bind
  obtain ⟨made, hsource, hmade⟩ :=
    (path_onServer (fun _ => ()) (fun _ _ _ => rfl) hrest).of_flatMapEvents
  exact ⟨caches_of_onServer hview hrest, made, w'.server, hsource, by rw [hes, hmade]⟩

/-- A cached scraper repeats a fresh entry, is dropped with the run of what it wraps, or returns with
it and remembers what it made. -/
theorem path_cached_cases {slot ttl : Nat} {inner : Scraper σ κ} {session : Session κ}
    {version : Version} {v : Option Verdict}
    (h : Path view ((cached slot ttl inner).run session version) time w es time' w' v) :
    (∃ os, fresh? slot ttl ⟨time, w⟩ session.database = some os ∧ time' = time ∧
      w.caches = w'.caches ∧ es = (os.map Event.observed).map (Prod.mk time) ∧
      v = some (.ok ())) ∨
    fresh? slot ttl ⟨time, w⟩ session.database = none ∧ ∃ made : Log,
      (Path view (inner.run session version) time w made time' w' none ∧ es = made.aside ∧
        v = none) ∨
      ∃ w₁ verdict, Path view (inner.run session version) time w made time' w₁ (some verdict) ∧
        es = made.aside ++ (made.results.map Event.observed).map (Prod.mk time') ∧
        w'.caches = w₁.caches.store slot session.database ⟨time, made.results⟩ ∧
        v = some verdict := by
  obtain ⟨w₀, hw₀, hrest⟩ := Path.of_ask_bind h
  have hfresh : fresh? slot ttl ⟨time, w⟩ session.database =
      fresh? slot ttl ⟨time, w₀⟩ session.database := by
    rw [fresh?, fresh?, hview _ _ hw₀]
  rw [hfresh]
  unfold fresh?
  cases hx : (w₀.caches.cache slot).fresh? ttl time session.database with
  | some os =>
    rw [hx] at hrest
    obtain ⟨_, hret, hes⟩ := hrest.of_emitAll_bind
    obtain ⟨rfl, rfl, hw', rfl⟩ := hret.of_pure
    rw [List.append_nil] at hes
    exact Or.inl ⟨os, rfl, rfl, hview _ _ (hw₀.trans hw'), hes, rfl⟩
  | none =>
    rw [hx] at hrest
    refine Or.inr ⟨rfl, ?_⟩
    rcases hrest.of_now_bind.bind_cases with ⟨rfl, hrun⟩ | ⟨es₁, t₁, w₁, r, es₂, hrun, hreturned, rfl⟩
    · obtain ⟨made, hmade, hes⟩ := hrun.of_flatMapEvents
      rw [Log.flatMap_withhold] at hes
      exact ⟨made, Or.inl ⟨hmade.of_gather.1.of_others hw₀, hes, rfl⟩⟩
    · obtain ⟨made, hmade, hes⟩ := hrun.of_flatMapEvents
      rw [Log.flatMap_withhold] at hes
      obtain ⟨hinner, hpicked⟩ := hmade.of_gather
      have hresults : r.2 = Log.results made := by
        rw [hpicked r rfl, Log.results, Event.results, Log.events, List.filterMap_map]
        rfl
      obtain ⟨_, hstore, hall⟩ := Path.of_emitAll_bind hreturned
      obtain ⟨w₂, hw₂, hret⟩ := hstore.of_modify_bind
      obtain ⟨rfl, rfl, hw', rfl⟩ := hret.of_pure
      refine ⟨made, Or.inr ⟨w₁, r.1, hinner.of_others hw₀, ?_, ?_, rfl⟩⟩
      · rw [hes, hall, hresults, List.append_nil]
      · rw [← hview _ _ hw', ← hresults, hview _ _ hw₂]

/-- A run starts its source at most once, first of all and at once, and then only makes observations
and hands them on. -/
theorem path_events {s : Scraper σ κ} {session : Session κ} {version : Version} {v : Option Verdict}
    (h : Path view (s.run session version) time w es time' w' v) :
    ∃ begun rest, es = begun ++ rest ∧
      (begun = [] ∨ begun = [(time, .started s.baseName session.database time)]) ∧
      ∀ e ∈ rest, e.2.ofRun := by
  induction s generalizing es w' v with
  | direct source =>
    obtain ⟨_, made, _, _, rfl⟩ := path_direct hview h
    refine ⟨[_], _, rfl, Or.inr rfl, ?_⟩
    intro e he
    obtain ⟨⟨t, o⟩, _, ho⟩ := List.mem_flatMap.mp he
    simp only [Event.ofSource, List.map_cons, List.map_nil, List.mem_cons, List.not_mem_nil,
      or_false] at ho
    rcases ho with rfl | rfl <;> rfl
  | cached slot ttl inner ih =>
    have hobserved : ∀ (t : Nat) (os : List Observation),
        ∀ e ∈ (os.map Event.observed).map (Prod.mk t), e.2.ofRun := by
      intro t os e he
      obtain ⟨e', he', rfl⟩ := List.mem_map.mp he
      exact ofRun_observed os e' he'
    have haside : ∀ {begun rest : Log}, (begun = [] ∨
        begun = [(time, .started inner.baseName session.database time)]) →
        (∀ e ∈ rest, e.2.ofRun) →
        Log.aside (begun ++ rest) = begun ++ Log.aside rest ∧ ∀ e ∈ Log.aside rest, e.2.ofRun := by
      intro begun rest hbegun hrest
      refine ⟨?_, fun e he => hrest e (List.mem_of_mem_filter he)⟩
      rw [Log.aside, List.filter_append]
      rcases hbegun with rfl | rfl <;> rfl
    rcases path_cached_cases hview h with ⟨os, _, _, _, rfl, _⟩ | ⟨_, made, hcut | hreturned⟩
    · exact ⟨[], _, rfl, Or.inl rfl, hobserved _ os⟩
    · obtain ⟨hinner, rfl, _⟩ := hcut
      obtain ⟨begun, rest, rfl, hbegun, hrest⟩ := ih hinner
      exact ⟨begun, _, (haside hbegun hrest).1, hbegun, (haside hbegun hrest).2⟩
    · obtain ⟨w₁, verdict, hinner, rfl, _, _⟩ := hreturned
      obtain ⟨begun, rest, hmade, hbegun, hrest⟩ := ih hinner
      refine ⟨begun, rest.aside ++ (made.results.map Event.observed).map (Prod.mk time'), ?_, hbegun,
        List.forall_mem_append.mpr ⟨(haside hbegun hrest).2, hobserved _ _⟩⟩
      rw [hmade, (haside hbegun hrest).1, List.append_assoc]

end
end Scraper
end PgMetrics
