import PgMetrics.Proofs.Activity.Run
import PgMetrics.Scraper

/-! # Runs of scrapers

What a run comes to: a source pushes its observations straight to the result; a fresh entry of a
cache is repeated at once; without one the wrapped scraper runs, and its observations are handed on
and stored when it has returned.  A run reads and writes no cache but those of its own scraper.
-/
namespace PgMetrics

/-- The time and the world that an activity finds or leaves. -/
structure Moment (σ : Type) where
  time : Nat
  world : World σ

def Activity.Outcome.moment {σ ω α : Type} (o : Outcome (World σ) ω α) : Moment σ :=
  ⟨o.time, o.state⟩

@[simp] theorem Activity.Outcome.moment_mk {σ ω α : Type} (time : Nat) (w : World σ)
    (events : List ω) (v : α) : (⟨time, w, events, v⟩ : Outcome (World σ) ω α).moment = ⟨time, w⟩ :=
  rfl

namespace Event

def results (events : List Event) : List Observation := events.filterMap observation?

@[simp] theorem results_append (es fs : List Event) :
    results (es ++ fs) = results es ++ results fs := List.filterMap_append

@[simp] theorem results_observed (os : List Observation) : results (os.map observed) = os := by
  simp [results, List.filterMap_map, Function.comp_def, observation?]

@[simp] theorem results_ofSource (os : List Observation) : results (os.flatMap ofSource) = os := by
  induction os with
  | nil => rfl
  | cons o rest ih =>
    rw [List.flatMap_cons, results_append, ih]
    rfl

def aside (events : List Event) : List Event := events.filter fun e => e.observation?.isNone

@[simp] theorem aside_append (es fs : List Event) : aside (es ++ fs) = aside es ++ aside fs :=
  List.filter_append ..

@[simp] theorem aside_observed (os : List Observation) : aside (os.map observed) = [] := by
  simp [aside, observation?]

@[simp] theorem aside_aside (es : List Event) : aside (aside es) = aside es := by
  simp [aside]

@[simp] theorem results_aside (es : List Event) : results (aside es) = [] := by
  simp [results, aside, List.filterMap_eq_nil_iff]

/-- Behind a cache everything happens as before, except that nothing reaches the result. -/
@[simp] theorem flatMap_withhold (es : List Event) : es.flatMap withhold = aside es := by
  induction es with
  | nil => rfl
  | cons e rest ih =>
    rw [List.flatMap_cons, ih]
    cases e <;> simp [withhold, aside, observation?]

end Event

namespace Scraper

variable {σ κ α : Type}

theorem run_onServer (a : Activity σ Event α) (time : Nat) (w : World σ) :
    (onServer a).run time w =
      let o := a.run time w.server
      ⟨o.time, { w with server := o.state }, o.events, o.value⟩ :=
  Activity.run_within World.server (fun s w => { w with server := s })
    (fun _ _ => rfl) (fun _ _ _ => rfl) (fun _ => rfl) a time w

theorem flatMap_of_empty {ω : Type} (f : Empty → List ω) (es : List Empty) :
    es.flatMap f = [] := by
  cases es with
  | nil => rfl
  | cons e _ => exact e.elim

/-- A query takes its time and changes the server, and nothing else. -/
@[simp] theorem run_asking (q : Query σ α) (time : Nat) (w : World σ) :
    (asking q).run time w =
      let o := q.run time w.server
      ⟨o.time, { w with server := o.state }, [], o.value⟩ := by
  rw [asking, run_onServer, Activity.mapEvents, Activity.run_flatMapEvents]
  simp only [flatMap_of_empty]

theorem run_limit_onServer (a : Activity σ Event α) (span time : Nat) (w : World σ) :
    ((onServer a).limit span).run time w =
      let o := (a.limit span).run time w.server
      ⟨o.time, { w with server := o.state }, o.events, o.value⟩ := by
  rw [onServer, Activity.limit_within]
  exact run_onServer (a.limit span) time w

theorem run_limit_asking (q : Query σ α) (span time : Nat) (w : World σ) :
    ((asking q).limit span).run time w =
      let o := (q.limit span).run time w.server
      ⟨o.time, { w with server := o.state }, [], o.value⟩ := by
  rw [asking, run_limit_onServer, Activity.mapEvents, Activity.limit_flatMapEvents,
    Activity.run_flatMapEvents]
  simp only [flatMap_of_empty]

theorem events_run_limit_asking (q : Query σ α) (span time : Nat) (w : World σ) :
    (((asking q).limit span).run time w).events = [] := by
  rw [run_limit_asking]

theorem run_direct (source : Source σ κ) (session : Session κ) (version : Version) (time : Nat)
    (w : World σ) :
    ((direct source).run session version).run time w =
      let o := (source.run session version).run time w.server
      ⟨o.time, { w with server := o.state },
        .started source.name session.database time :: o.events.flatMap Event.ofSource, o.value⟩ := by
  simp [run, run_onServer]

/-- The entry that a cache serves at a time, if it serves one. -/
def fresh? (slot ttl : Nat) (m : Moment σ) (database : String) : Option (List Observation) :=
  (m.world.caches.cache slot).fresh? ttl m.time database

theorem run_cached_of_fresh {slot ttl time : Nat} {w : World σ} {session : Session κ}
    {os : List Observation} (h : fresh? slot ttl ⟨time, w⟩ session.database = some os)
    (inner : Scraper σ κ) (version : Version) :
    ((cached slot ttl inner).run session version).run time w =
      ⟨time, w, os.map .observed, .ok ()⟩ := by
  simp only [fresh?] at h
  simp [run, remembered, h]

theorem run_cached_of_stale {slot ttl time : Nat} {w : World σ} {session : Session κ}
    (h : fresh? slot ttl ⟨time, w⟩ session.database = none) (inner : Scraper σ κ)
    (version : Version) :
    ((cached slot ttl inner).run session version).run time w =
      let o := (inner.run session version).run time w
      let entry : CacheEntry := ⟨time, Event.results o.events⟩
      ⟨o.time, { o.state with caches := o.state.caches.store slot session.database entry },
        Event.aside o.events ++ (Event.results o.events).map .observed, o.value⟩ := by
  simp only [fresh?] at h
  simp [run, remembered, h, remember, Event.results]

theorem run_limit_direct (source : Source σ κ) (session : Session κ) (version : Version)
    (span time : Nat) (w : World σ) :
    (((direct source).run session version).limit span).run time w =
      let o := ((source.run session version).limit span).run time w.server
      ⟨o.time, { w with server := o.state },
        .started source.name session.database time :: o.events.flatMap Event.ofSource, o.value⟩ := by
  simp [run, Activity.run_limit_bind, run_limit_onServer, Activity.limit_flatMapEvents]

theorem run_limit_cached_of_fresh {slot ttl time : Nat} {w : World σ} {session : Session κ}
    {os : List Observation} (h : fresh? slot ttl ⟨time, w⟩ session.database = some os)
    (inner : Scraper σ κ) (version : Version) (span : Nat) :
    (((cached slot ttl inner).run session version).limit span).run time w =
      ⟨time, w, os.map .observed, some (.ok ())⟩ := by
  simp only [fresh?] at h
  simp [run, remembered, Activity.run_limit_bind, h]

theorem run_limit_cached_of_stale {slot ttl time : Nat} {w : World σ} {session : Session κ}
    (h : fresh? slot ttl ⟨time, w⟩ session.database = none) (inner : Scraper σ κ)
    (version : Version) (span : Nat) :
    (((cached slot ttl inner).run session version).limit span).run time w =
      let o := ((inner.run session version).limit span).run time w
      match o.value with
      | none => ⟨o.time, o.state, Event.aside o.events, none⟩
      | some verdict =>
        let entry : CacheEntry := ⟨time, Event.results o.events⟩
        ⟨o.time, { o.state with caches := o.state.caches.store slot session.database entry },
          Event.aside o.events ++ (Event.results o.events).map .observed, some verdict⟩ := by
  simp only [fresh?] at h
  cases hv : (((inner.run session version).limit span).run time w).value <;>
    simp [run, remembered, remember, Activity.run_limit_bind, Activity.limit_flatMapEvents,
      Activity.run_limit_gather, Event.results, h, hv]

/-- Under a limit a cached scraper repeats a fresh entry, is dropped with the wrapped run, or returns
with it and remembers what it made. -/
theorem run_limit_cached_cases (slot ttl : Nat) (inner : Scraper σ κ) (session : Session κ)
    (version : Version) (span : Nat) (m : Moment σ) :
    let o := (((cached slot ttl inner).run session version).limit span).run m.time m.world
    let p := ((inner.run session version).limit span).run m.time m.world
    let entry : CacheEntry := ⟨m.time, Event.results p.events⟩
    (∃ os, fresh? slot ttl m session.database = some os ∧
      o = ⟨m.time, m.world, os.map .observed, some (.ok ())⟩) ∨
    o = ⟨p.time, p.state, Event.aside p.events, none⟩ ∨
    ∃ verdict, o = ⟨p.time,
      { p.state with caches := p.state.caches.store slot session.database entry },
      Event.aside p.events ++ (Event.results p.events).map .observed, some verdict⟩ := by
  intro o p entry
  cases hf : fresh? slot ttl m session.database with
  | some os => exact Or.inl ⟨os, rfl, run_limit_cached_of_fresh hf inner version span⟩
  | none =>
    right
    simp only [o, run_limit_cached_of_stale hf]
    cases hv : p.value with
    | none => exact Or.inl rfl
    | some verdict => exact Or.inr ⟨verdict, rfl⟩

def slots : Scraper σ κ → List Nat
  | .direct _ => []
  | .cached slot _ inner => slot :: inner.slots

def AgreeOff (slot : Nat) (w w' : World σ) : Prop :=
  w.server = w'.server ∧ ∀ k, k ≠ slot → w.caches.cache k = w'.caches.cache k

/-- A scraper that is not behind a cache neither reads nor writes it. -/
theorem run_agreeOff {slot : Nat} (s : Scraper σ κ) (hs : slot ∉ s.slots) (session : Session κ)
    (version : Version) (time : Nat) {w w' : World σ} (h : AgreeOff slot w w') :
    let o := (s.run session version).run time w
    let o' := (s.run session version).run time w'
    o.time = o'.time ∧ o.events = o'.events ∧ o.value = o'.value ∧ AgreeOff slot o.state o'.state ∧
      o.state.caches.cache slot = w.caches.cache slot := by
  induction s with
  | direct source =>
    simp only [run_direct, h.1]
    exact ⟨trivial, trivial, trivial, ⟨rfl, h.2⟩, trivial⟩
  | cached k ttl inner ih =>
    simp only [slots, List.mem_cons, not_or] at hs
    have hk : w.caches.cache k = w'.caches.cache k := h.2 k (Ne.symm hs.1)
    cases hf : fresh? k ttl ⟨time, w⟩ session.database with
    | some os =>
      have hf' : fresh? k ttl ⟨time, w'⟩ session.database = some os := by
        rw [← hf]
        simp only [fresh?, hk]
      simp only [run_cached_of_fresh hf, run_cached_of_fresh hf']
      exact ⟨trivial, trivial, trivial, h, trivial⟩
    | none =>
      have hf' : fresh? k ttl ⟨time, w'⟩ session.database = none := by
        rw [← hf]
        simp only [fresh?, hk]
      obtain ⟨ht, he, hv, hw, hc⟩ := ih hs.2
      simp only [run_cached_of_stale hf, run_cached_of_stale hf']
      refine ⟨ht, by simp only [he], hv, ⟨hw.1, ?_⟩, ?_⟩
      · intro l hl
        by_cases hkl : l = k
        · subst hkl
          rw [Caches.cache_store_self, Caches.cache_store_self, hw.2 l hl, he]
        · rw [Caches.cache_store_of_ne _ _ _ hkl, Caches.cache_store_of_ne _ _ _ hkl, hw.2 l hl]
      · rw [Caches.cache_store_of_ne _ _ _ hs.1, hc]

theorem cache_run {slot : Nat} (s : Scraper σ κ) (hs : slot ∉ s.slots) (session : Session κ)
    (version : Version) (time : Nat) (w : World σ) :
    ((s.run session version).run time w).state.caches.cache slot = w.caches.cache slot := by
  have hself : AgreeOff slot w w := ⟨rfl, fun _ _ => rfl⟩
  exact (s.run_agreeOff hs session version time hself).2.2.2.2

end Scraper
end PgMetrics
