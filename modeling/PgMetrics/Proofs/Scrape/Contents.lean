import PgMetrics.Proofs.Activity.Limit
import PgMetrics.Proofs.Scrape.Invariant
import PgMetrics.Proofs.Service.Delivery
import PgMetrics.Proofs.Service.History

/-! # What a result is made of

Everything in the result of a scrape is pushed by a source, remembered by a cache or reported by the
scrape itself.  So a law of results that allows what is pushed and remembered and what is reported
holds of every result, dropped scrapes included, and what holds of everything that sources make
holds of everything that caches ever remember.
-/
namespace PgMetrics

variable {σ κ α : Type} {P : Observation → Prop}

@[simp] theorem Event.pushes_ofSource (os : List Observation) :
    Event.pushes (os.flatMap Event.ofSource) = os := by
  induction os with
  | nil => rfl
  | cons o rest ih =>
    rw [List.flatMap_cons, Event.pushes_append, ih]
    rfl

@[simp] theorem Event.pushes_observed (os : List Observation) :
    Event.pushes (os.map Event.observed) = [] := by
  simp [Event.pushes, Event.made?]

namespace Caches

def Hold (P : Observation → Prop) (cs : Caches) : Prop :=
  ∀ slot d e, (cs.cache slot).get? d = some e → ∀ o ∈ e.observations, P o

def HoldIn (slots : Nat → Prop) (P : Observation → Prop) (cs : Caches) : Prop :=
  ∀ slot, slots slot → ∀ d e, (cs.cache slot).get? d = some e → ∀ o ∈ e.observations, P o

theorem hold_iff_holdIn {cs : Caches} : cs.Hold P ↔ cs.HoldIn (fun _ => True) P :=
  ⟨fun h slot _ => h slot, fun h slot => h slot trivial⟩

variable {slots : Nat → Prop} {cs : Caches}

theorem holdIn_empty : HoldIn slots P .empty := by
  intro slot _ d e h
  cases h

theorem hold_empty : Hold P .empty := hold_iff_holdIn.mpr holdIn_empty

theorem HoldIn.store (h : cs.HoldIn slots P) (slot : Nat) (d : String) {e : CacheEntry}
    (he : ∀ o ∈ e.observations, P o) : (cs.store slot d e).HoldIn slots P := by
  intro slot' hslot' d' e' he'
  by_cases hslot : slot' = slot
  · subst hslot
    rw [cache_store_self] at he'
    by_cases hd : d' = d
    · subst hd
      rw [Table.get?_put_self, Option.some.injEq] at he'
      exact he' ▸ he
    · rw [Table.get?_put_of_ne _ _ hd] at he'
      exact h slot' hslot' d' e' he'
  · rw [cache_store_of_ne _ _ _ hslot] at he'
    exact h slot' hslot' d' e' he'

end Caches

namespace Scraper

variable {slots : Nat → Prop}

theorem holdIn_fresh? {slot ttl : Nat} {m : Moment σ} {d : String} {os : List Observation}
    (h : m.world.caches.HoldIn slots P) (hslot : slots slot) (hf : fresh? slot ttl m d = some os) :
    ∀ o ∈ os, P o := by
  unfold fresh? Cache.fresh? at hf
  cases he : (m.world.caches.cache slot).get? d with
  | none =>
    rw [he] at hf
    cases hf
  | some e =>
    simp only [he] at hf
    split at hf
    · cases hf
      exact h slot hslot d e he
    · cases hf

/-- What a run passes on and what it leaves in its caches was pushed in it or remembered there
before. -/
theorem holdIn_run_limit (s : Scraper σ κ) (hslots : ∀ k ∈ s.slots, slots k) (session : Session κ)
    (version : Version) (span : Nat) (m : Moment σ) (hcaches : m.world.caches.HoldIn slots P)
    (hpushes : ∀ o ∈ Event.pushes (((s.run session version).limit span).run m.time m.world).events,
      P o) :
    (((s.run session version).limit span).run m.time m.world).state.caches.HoldIn slots P ∧
      ∀ o ∈ Event.results (((s.run session version).limit span).run m.time m.world).events,
        P o := by
  induction s with
  | direct source =>
    rw [run_limit_direct] at hpushes ⊢
    let made := (((source.run session version).limit span).run m.time m.world.server).events
    have hpushed : Event.pushes (.started source.name session.database m.time ::
        made.flatMap Event.ofSource) = made := Event.pushes_ofSource made
    have hresults : Event.results (.started source.name session.database m.time ::
        made.flatMap Event.ofSource) = made := Event.results_ofSource made
    rw [hpushed] at hpushes
    rw [hresults]
    exact ⟨hcaches, hpushes⟩
  | cached slot ttl inner ih =>
    obtain ⟨hslot, hinner⟩ := List.forall_mem_cons.mp hslots
    rcases run_limit_cached_cases slot ttl inner session version span m with
      ⟨os, hf, ho⟩ | ho | ⟨verdict, ho⟩
    · rw [ho, Event.results_observed]
      exact ⟨hcaches, holdIn_fresh? hcaches hslot hf⟩
    · rw [ho, Event.pushes_aside] at hpushes
      rw [ho, Event.results_aside]
      exact ⟨(ih hinner hpushes).1, fun o ho => absurd ho List.not_mem_nil⟩
    · rw [ho, Event.pushes_append, Event.pushes_aside] at hpushes
      obtain ⟨hstate, hresults⟩ := ih hinner fun o ho => hpushes o (List.mem_append_left _ ho)
      rw [ho, Event.results_append, Event.results_aside, Event.results_observed]
      exact ⟨hstate.store _ _ hresults, hresults⟩

theorem hold_run_limit (s : Scraper σ κ) (session : Session κ) (version : Version) (span : Nat)
    (m : Moment σ) (hcaches : m.world.caches.Hold P)
    (hpushes : ∀ o ∈ Event.pushes (((s.run session version).limit span).run m.time m.world).events,
      P o) :
    (((s.run session version).limit span).run m.time m.world).state.caches.Hold P ∧
      ∀ o ∈ Event.results (((s.run session version).limit span).run m.time m.world).events,
        P o := by
  rw [Caches.hold_iff_holdIn] at hcaches ⊢
  exact s.holdIn_run_limit (fun _ _ => trivial) session version span m hcaches hpushes

end Scraper

namespace Scrape

/-- What may be in a result: what is pushed and remembered has the property `P`, and results that
`Q` allows can be put together from it and from what the scrape reports. -/
structure Law (P : Observation → Prop) (Q : List Observation → Prop) : Prop where
  append : ∀ {os os'}, Q os → Q os' → Q (os ++ os')
  of_forall : ∀ {os}, (∀ o ∈ os, P o) → Q os
  info : ∀ v, Q [info v]
  report : ∀ s d span verdict, Q [duration s d span, success s d verdict]

def Lawful (P : Observation → Prop) (Q : List Observation → Prop) (log : List Event)
    (m : Moment σ) : Prop :=
  (∀ o ∈ Event.pushes log, P o) → m.world.caches.Hold P ∧ Q (Event.results log)

variable {Q : List Observation → Prop}

theorem lawful_append {log es : List Event} {m m' : Moment σ} (hQ : Law P Q)
    (h : Lawful P Q log m)
    (hes : m.world.caches.Hold P → (∀ o ∈ Event.pushes es, P o) →
      m'.world.caches.Hold P ∧ Q (Event.results es)) : Lawful P Q (log ++ es) m' := by
  intro hpushes
  rw [Event.pushes_append] at hpushes
  obtain ⟨hcaches, hbefore⟩ := h fun o ho => hpushes o (List.mem_append_left _ ho)
  obtain ⟨hcaches', hresults⟩ := hes hcaches fun o ho => hpushes o (List.mem_append_right _ ho)
  rw [Event.results_append]
  exact ⟨hcaches', hQ.append hbefore hresults⟩

theorem lawful_segment (hQ : Law P Q) (s : Scraper σ κ) (session : Session κ) (version : Version) :
    Keeps (Lawful P Q) (Lawful P Q) (segment s session version) := by
  intro span log m h
  let r := ((s.run session version).limit span).run m.time m.world
  have hrun : m.world.caches.Hold P → (∀ o ∈ Event.pushes r.events, P o) →
      r.state.caches.Hold P ∧ Q (Event.results r.events) := by
    intro hcaches hpushes
    obtain ⟨hcaches', hresults⟩ := s.hold_run_limit session version span m hcaches hpushes
    exact ⟨hcaches', hQ.of_forall hresults⟩
  cases hv : r.value with
  | none =>
    rw [run_limit_segment_of_none hv]
    exact ⟨lawful_append hQ h hrun, by simp⟩
  | some verdict =>
    rw [run_limit_segment_of_some hv]
    have hafter : Lawful P Q (log ++ (r.events ++
        [.observed (duration s.name session.database (r.time - m.time)),
          .observed (success s.name session.database verdict)])) ⟨r.time, r.state⟩ := by
      refine lawful_append hQ h fun hcaches hpushes => ?_
      rw [Event.pushes_append] at hpushes
      obtain ⟨hcaches', hresults⟩ := hrun hcaches fun o ho =>
        hpushes o (List.mem_append_left _ ho)
      rw [Event.results_append]
      exact ⟨hcaches', hQ.append hresults (hQ.report _ _ _ _)⟩
    exact ⟨hafter, fun _ _ => hafter⟩

theorem invariant_lawful (hQ : Law P Q) (scrapers : List (Scraper σ κ)) :
    Invariant scrapers (Lawful P Q) (Lawful P Q) := by
  have hnil : Q [] := hQ.of_forall (by simp)
  exact {
    weaken := id
    asked := fun h hcaches => by simpa only [Lawful, hcaches] using h
    reported := fun v h => lawful_append hQ h fun hcaches _ => ⟨hcaches, hQ.info v⟩
    requested := fun d h => lawful_append hQ h fun hcaches _ => ⟨hcaches, hnil⟩
    opened := fun n d _ h => lawful_append hQ h fun hcaches _ => ⟨hcaches, hnil⟩
    closed := fun n _ h => lawful_append hQ h fun hcaches _ => ⟨hcaches, hnil⟩
    segment := fun s _ => lawful_segment hQ s }

end Scrape

def Source.Makes (P : Observation → Prop) (source : Source σ κ) : Prop :=
  ∀ session version time server,
    ∀ o ∈ ((source.run session version).run time server).events, P o

namespace Scraper

theorem pushes_run_limit (s : Scraper σ κ) (hs : s.source.Makes P) (session : Session κ)
    (version : Version) (span : Nat) (m : Moment σ) :
    ∀ o ∈ Event.pushes (((s.run session version).limit span).run m.time m.world).events, P o := by
  induction s with
  | direct source =>
    rw [run_limit_direct]
    intro o ho
    have hmade : o ∈
        (((source.run session version).limit span).run m.time m.world.server).events := by
      rwa [← Event.pushes_ofSource (Activity.Outcome.events _)]
    have hbeginning := (source.run session version).events_run_limit_isPrefix span m.time m.world.server
    exact hs session version m.time m.world.server o (hbeginning.mem hmade)
  | cached slot ttl inner ih =>
    rcases run_limit_cached_cases slot ttl inner session version span m with
      ⟨os, _, ho⟩ | ho | ⟨verdict, ho⟩
    · rw [ho, Event.pushes_observed]
      simp
    · rw [ho, Event.pushes_aside]
      exact ih hs
    · rw [ho, Event.pushes_append, Event.pushes_aside, Event.pushes_observed, List.append_nil]
      exact ih hs

end Scraper

namespace Scrape

theorem invariant_pushes {scrapers : List (Scraper σ κ)}
    (hmakes : ∀ s ∈ scrapers, s.source.Makes P) :
    Invariant scrapers (fun log (_ : Moment σ) => ∀ o ∈ Event.pushes log, P o)
      (fun log _ => ∀ o ∈ Event.pushes log, P o) := by
  have happend : ∀ {log es}, (∀ o ∈ Event.pushes log, P o) → (∀ o ∈ Event.pushes es, P o) →
      ∀ o ∈ Event.pushes (log ++ es), P o := by
    intro log es hlog hes
    rw [Event.pushes_append]
    exact List.forall_mem_append.mpr ⟨hlog, hes⟩
  have hnone : ∀ o ∈ ([] : List Observation), P o := by simp
  exact {
    weaken := id
    asked := fun h _ => h
    reported := fun _ h => happend h hnone
    requested := fun _ h => happend h hnone
    opened := fun _ _ _ h => happend h hnone
    closed := fun _ _ h => happend h hnone
    segment := by
      intro s hs session version
      refine keeps_segment (fun _ _ => id) ?_ (fun _ _ _ h => happend h hnone)
        fun _ _ _ h => happend h hnone
      intro span log m h
      have hafter := happend h (s.pushes_run_limit (hmakes s hs) session version span m)
      exact ⟨hafter, fun _ _ => hafter⟩ }

section Collect
variable (g : Gateway σ κ) (target : Target) (set : ScraperSet σ κ) (excluded only : List String)
  (span : Nat) (m : Moment σ)

theorem pushes_collect (hmakes : ∀ s ∈ set.all, s.source.Makes P) :
    ∀ o ∈ Event.pushes (((collect g target set excluded only).limit span).run m.time m.world).events,
      P o := by
  rcases collect_cases g target set excluded only span m with
    ⟨_, _, hlog, _⟩ | ⟨_, _, hlog, _⟩ | ⟨session, rest, _, _, hrest⟩
  · rw [hlog]
    simp [Event.pushes, Event.made?]
  · rw [hlog]
    simp [Event.pushes, Event.made?]
  · have hserver := ((invariant_pushes hmakes).onServer g target excluded only session rest
      (greeting target) (connected g target span m) (by simp [greeting, Event.pushes, Event.made?])).1
    rcases hrest with ⟨_, _, hlog⟩ | ⟨_, hlog⟩
    · rw [hlog]
      exact hserver
    · rw [hlog, Event.pushes_append]
      simpa [Event.pushes, Event.made?] using hserver

/-- Nothing is in the result of a scrape that is dropped before it is connected.  Otherwise the
result begins with whether the server is up, and a law holds of the rest. -/
theorem collect_lawful {Q : List Observation → Prop} (hQ : Law P Q)
    (hcaches : m.world.caches.Hold P) :
    let o := ((collect g target set excluded only).limit span).run m.time m.world
    let c := (connecting g target span m).value
    (∀ p ∈ Event.pushes o.events, P p) → o.state.caches.Hold P ∧
      ((c = none ∧ Event.results o.events = []) ∨
        (∃ failure, c = some (.error failure) ∧ Event.results o.events = [up 0]) ∨
        ∃ session rest, c = some (.ok session) ∧ .opened 0 target.database ∈ o.events ∧
          Event.results o.events = up 1 :: rest ∧ Q rest) := by
  intro o c hpushes
  rcases collect_cases g target set excluded only span m with
    ⟨hv, _, hlog, hstate⟩ | ⟨failure, hv, hlog, hstate⟩ | ⟨session, rest, hv, hstate, hrest⟩
  · refine ⟨hstate ▸ hcaches, Or.inl ⟨hv, ?_⟩⟩
    rw [hlog]
    rfl
  · refine ⟨hstate ▸ hcaches, Or.inr (Or.inl ⟨failure, hv, ?_⟩)⟩
    rw [hlog]
    rfl
  · have hserver := ((invariant_lawful hQ set.all).onServer g target excluded only session rest []
      (connected g target span m) fun _ => ⟨hcaches, hQ.of_forall (by simp [Event.results])⟩).1
    let p := ((onServer g target set excluded only session).limit rest).run
      (connected g target span m).time (connected g target span m).world
    obtain ⟨tail, hlog, htail, htail'⟩ : ∃ tail, o.events = greeting target ++ p.events ++ tail ∧
        Event.pushes tail = [] ∧ Event.results tail = [] := by
      rcases hrest with ⟨_, _, hlog⟩ | ⟨_, hlog⟩
      · exact ⟨[], by rw [List.append_nil]; exact hlog, rfl, rfl⟩
      · exact ⟨_, hlog, rfl, rfl⟩
    rw [hlog] at hpushes ⊢
    rw [Event.pushes_append, Event.pushes_append, htail, List.append_nil] at hpushes
    obtain ⟨hafter, hresults⟩ := hserver hpushes
    refine ⟨hstate ▸ hafter, Or.inr (Or.inr ⟨session, Event.results p.events, hv, ?_, ?_,
      hresults⟩)⟩
    · simp [greeting]
    · rw [Event.results_append, Event.results_append, htail', List.append_nil]
      rfl

end Collect
end Scrape

namespace Service

/-- What is returned, if a law holds of what was pushed and remembered. -/
theorem sink_lawful {Q : List Observation → Prop} (hQ : Scrape.Law P Q) (s : Service σ κ)
    (only : List String) (m : Moment σ) (hcaches : m.world.caches.Hold P)
    (hpushes : ∀ o ∈ Event.pushes (s.log only m), P o) :
    let c := (Scrape.connecting s.gateway s.target s.timeout m).value
    (c = none ∧ s.sink only m = []) ∨
      (∃ failure, c = some (.error failure) ∧ s.sink only m = [Scrape.up 0]) ∨
      ∃ session rest, c = some (.ok session) ∧ .opened 0 s.target.database ∈ s.log only m ∧
        s.sink only m = Scrape.up 1 :: rest ∧ Q rest := by
  rw [s.sink_eq]
  exact (Scrape.collect_lawful s.gateway s.target s.scrapers s.excluded only s.timeout m hQ hcaches
    hpushes).2

section Makes
variable {s : Service σ κ} (hmakes : ∀ r ∈ s.scrapers.all, r.source.Makes P)

include hmakes in
theorem pushes_log (only : List String) (m : Moment σ) :
    ∀ o ∈ Event.pushes (s.log only m), P o :=
  Scrape.pushes_collect s.gateway s.target s.scrapers s.excluded only s.timeout m hmakes

include hmakes in
/-- Caches never remember anything that no source makes. -/
theorem hold_reached (ops : List (Operation σ)) {m : Moment σ} (h : m.world.caches.Hold P) :
    (s.reached ops m).world.caches.Hold P := by
  have hlaw : Scrape.Law P fun _ => True :=
    ⟨fun _ _ => trivial, fun _ => trivial, fun _ => trivial, fun _ _ _ _ => trivial⟩
  refine @history_keeps _ _ s (fun _ m => m.world.caches.Hold P) ?_ ?_ ops [] m h
  · intro log m m' es h _ hcaches
    rwa [hcaches]
  · intro only log m h
    rw [run_scrape]
    exact (Scrape.collect_lawful s.gateway s.target s.scrapers s.excluded only s.timeout m hlaw h
      (pushes_log hmakes only m)).1

end Makes
end Service
end PgMetrics
