import PgMetrics.Proofs.Scrape.Invariant
import PgMetrics.Proofs.Scraper.Limited
import PgMetrics.Proofs.Service.Delivery
import PgMetrics.Proofs.Service.History
import PgMetrics.Selection
import Mathlib.Data.List.Chain
import Mathlib.Data.List.Nodup

/-! # How often a cached scraper asks the server

Behind a cache a source starts again only when more than the time to live has passed since its last
start, because that start is remembered once its run has returned.  A run that is dropped with its
scrape is not remembered, and the next one may follow at once.
-/
namespace PgMetrics

variable {σ κ : Type}

inductive Fate where
  | underway
  | returned
  | cut
  deriving DecidableEq

structure Start where
  time : Nat
  fate : Fate := .underway
  deriving DecidableEq

/-- What an event tells of a run before it.  Until it returns it only makes observations, since none
passes the cache, and it is cut if its connections are dropped then. -/
def Start.after (b : Start) : Event → Start
  | .made _ => b
  | .dropped _ => if b.fate = .underway then { b with fate := .cut } else b
  | _ => if b.fate = .underway then { b with fate := .returned } else b

def Event.start? (source database : String) : Event → Option Start
  | .started s d time => if s = source ∧ d = database then some { time } else none
  | _ => none

namespace Start

def advance (source database : String) (bs : List Start) (e : Event) : List Start :=
  bs.map (·.after e) ++ (e.start? source database).toList

def all (source database : String) (log : List Event) : List Start :=
  log.foldl (advance source database) []

/-- One run starts later than the time to live after another, or that one was cut. -/
def Apart (ttl : Nat) (b b' : Start) : Prop := b.fate = .cut ∨ b.time + ttl < b'.time

@[simp] theorem time_after (b : Start) (e : Event) : (b.after e).time = b.time := by
  cases e <;> simp only [after] <;> split <;> rfl

theorem fate_after_of_cut {b : Start} (h : b.fate = .cut) (e : Event) : (b.after e).fate = .cut := by
  cases e <;> simp [after, h]

theorem Apart.after {ttl : Nat} {b b' : Start} (h : Apart ttl b b') (e : Event) :
    Apart ttl (b.after e) (b'.after e) := by
  rcases h with h | h
  · exact Or.inl (fate_after_of_cut h e)
  · exact Or.inr (by simpa using h)

theorem isChain_after {ttl : Nat} {bs : List Start} (h : bs.IsChain (Apart ttl)) (e : Event) :
    (bs.map (·.after e)).IsChain (Apart ttl) := by
  rw [List.isChain_map]
  exact h.imp fun _ _ h => h.after e

end Start

/-- The runs keep apart, and the last one was cut or is remembered. -/
structure Paced (slot ttl : Nat) (database : String) (bs : List Start) (cs : Caches) : Prop where
  apart : bs.IsChain (Start.Apart ttl)
  last : ∀ b ∈ bs.getLast?, b.fate = .cut ∨
    ∃ e, (cs.cache slot).get? database = some e ∧ b.time ≤ e.start

namespace Paced

variable {source database : String} {slot ttl : Nat} {bs : List Start} {cs cs' : Caches}

theorem after (h : Paced slot ttl database bs cs) (e : Event) :
    Paced slot ttl database (bs.map (·.after e)) cs := by
  refine ⟨Start.isChain_after h.apart e, ?_⟩
  intro b hb
  rw [List.getLast?_map] at hb
  obtain ⟨b, hlast, rfl⟩ := Option.map_eq_some_iff.mp hb
  rcases h.last b hlast with hcut | ⟨entry, hentry, hle⟩
  · exact Or.inl (Start.fate_after_of_cut hcut e)
  · exact Or.inr ⟨entry, hentry, by simpa using hle⟩

theorem foldl {es : List Event} (h : Paced slot ttl database bs cs)
    (hes : ∀ e ∈ es, e.start? source database = none) :
    Paced slot ttl database (es.foldl (Start.advance source database) bs) cs := by
  induction es generalizing bs with
  | nil => exact h
  | cons e rest ih =>
    rw [List.forall_mem_cons] at hes
    refine ih ?_ hes.2
    rw [Start.advance, hes.1, Option.toList_none, List.append_nil]
    exact h.after e

theorem of_caches (h : Paced slot ttl database bs cs)
    (hcs : (cs'.cache slot).get? database = (cs.cache slot).get? database) :
    Paced slot ttl database bs cs' := by
  refine ⟨h.apart, fun b hb => ?_⟩
  rw [hcs]
  exact h.last b hb

section Begun
variable {time : Nat} {begun : List Event} (h : Paced slot ttl database bs cs)
  (hstale : ∀ e, (cs.cache slot).get? database = some e → e.start + ttl < time)
  (hbegun : begun = [] ∨ begun = [.started source database time])

theorem start?_started : Event.start? source database (.started source database time) =
    some { time } := by
  simp [Event.start?]

include h hstale in
/-- A run that starts when there is no fresh entry keeps apart from those before it. -/
theorem isChain_started :
    (Start.advance source database bs (.started source database time)).IsChain
      (Start.Apart ttl) := by
  have hafter := h.after (.started source database time)
  rw [Start.advance, start?_started, Option.toList_some, List.isChain_append]
  refine ⟨hafter.apart, List.isChain_singleton _, ?_⟩
  intro b hb b' hb'
  cases hb'
  rcases hafter.last b hb with hcut | ⟨e, he, hle⟩
  · exact Or.inl hcut
  · have hlate := hstale e he
    exact Or.inr (show b.time + ttl < time by omega)

theorem getLast?_started :
    (Start.advance source database bs (.started source database time)).getLast? =
      some { time } := by
  simp [Start.advance, start?_started]

include h hstale hbegun in
/-- A run that returns is remembered. -/
theorem returned {e : CacheEntry} (he : (cs'.cache slot).get? database = some e)
    (htime : e.start = time) :
    Paced slot ttl database (begun.foldl (Start.advance source database) bs) cs' := by
  rcases hbegun with rfl | rfl
  · refine ⟨h.apart, fun b hb => ?_⟩
    rcases h.last b hb with hcut | ⟨old, hold, hle⟩
    · exact Or.inl hcut
    · have hlate := hstale old hold
      exact Or.inr ⟨e, he, by omega⟩
  · refine ⟨h.isChain_started hstale, fun b hb => ?_⟩
    rw [List.foldl_cons, List.foldl_nil, getLast?_started, Option.mem_some] at hb
    exact Or.inr ⟨e, he, by rw [← hb, htime]⟩

include h hstale hbegun in
/-- A run that is dropped before it returns is cut. -/
theorem dropped (hcs : (cs'.cache slot).get? database = (cs.cache slot).get? database) (k : Nat) :
    Paced slot ttl database (Start.advance source database
      (begun.foldl (Start.advance source database) bs) (.dropped k)) cs' := by
  have hnone : Event.start? source database (.dropped k) = none := rfl
  rw [Start.advance, hnone, Option.toList_none, List.append_nil]
  rcases hbegun with rfl | rfl
  · exact (h.of_caches hcs).after _
  · refine ⟨Start.isChain_after (h.isChain_started hstale) _, fun b hb => ?_⟩
    rw [List.getLast?_map, List.foldl_cons, List.foldl_nil, getLast?_started, Option.map_some,
      Option.mem_some] at hb
    rw [← hb]
    exact Or.inl rfl

end Begun
end Paced

namespace Start

theorem foldl_made {source database : String} {bs : List Start} {es : List Event}
    (hes : ∀ e ∈ es, e.made? ≠ none) : es.foldl (advance source database) bs = bs := by
  induction es with
  | nil => rfl
  | cons e rest ih =>
    rw [List.forall_mem_cons] at hes
    cases e with
    | made o => simpa [advance, Start.after, Event.start?] using ih hes.2
    | _ => exact absurd rfl hes.1

theorem all_append (source database : String) (log es : List Event) :
    all source database (log ++ es) = es.foldl (advance source database) (all source database log) :=
  List.foldl_append

end Start

def PacedLog (source database : String) (slot ttl : Nat) (log : List Event) (m : Moment σ) : Prop :=
  Paced slot ttl database (Start.all source database log) m.world.caches

def CutLog (source database : String) (slot ttl : Nat) (log : List Event) (m : Moment σ) : Prop :=
  ∀ k, PacedLog source database slot ttl (log ++ [.dropped k]) m

section Log
variable {source database : String} {slot ttl : Nat} {log es : List Event} {m m' : Moment σ}

theorem PacedLog.append (h : PacedLog source database slot ttl log m)
    (hes : ∀ e ∈ es, e.start? source database = none)
    (hcaches : (m'.world.caches.cache slot).get? database =
      (m.world.caches.cache slot).get? database) :
    PacedLog source database slot ttl (log ++ es) m' := by
  rw [PacedLog, Start.all_append]
  exact (h.of_caches hcaches).foldl hes

theorem PacedLog.weaken (h : PacedLog source database slot ttl log m) :
    CutLog source database slot ttl log m := by
  intro k
  have hdropped : ∀ e ∈ [Event.dropped k], e.start? source database = none := by
    simp [Event.start?]
  exact h.append hdropped rfl

theorem PacedLog.keeps {α : Type} {value : Option α} (h : PacedLog source database slot ttl log m) :
    CutLog source database slot ttl log m ∧
      ∀ v, value = some v → PacedLog source database slot ttl log m :=
  ⟨h.weaken, fun _ _ => h⟩

theorem Scraper.start_of_stale (hf : fresh? slot ttl m database = none) {e : CacheEntry}
    (he : (m.world.caches.cache slot).get? database = some e) : e.start + ttl < m.time := by
  simp only [fresh?, Cache.fresh?, he, CacheEntry.fresh, decide_eq_true_eq] at hf
  split at hf
  · cases hf
  · omega

theorem start?_of_ofRun {e : Event} (h : e.ofRun) : e.start? source database = none := by
  cases e with
  | started s d time => cases h
  | _ => rfl

/-- A scraper of another name and without the cache leaves the runs as they are. -/
theorem keeps_run_of_ne {r : Scraper σ κ} (hname : r.baseName ≠ source) (hslot : slot ∉ r.slots)
    (session : Session κ) (version : Version) :
    Scrape.Keeps (PacedLog source database slot ttl) (CutLog source database slot ttl)
      (r.run session version) := by
  refine Scrape.keeps_of_kept (fun _ _ h => h.weaken) ?_
  intro span log m h
  obtain ⟨begun, rest, hevents, hbegun, hrest⟩ := r.events_run_limit session version span m
  refine h.append ?_ ?_
  · rw [hevents, List.forall_mem_append]
    refine ⟨?_, fun e he => start?_of_ofRun (hrest e he)⟩
    rcases hbegun with rfl | rfl <;> simp [Event.start?, hname]
  · exact congrArg (fun c : Cache => c.get? database) (r.cache_run_limit hslot session version span m)

section Cached
variable {inner : Scraper σ κ} (hslot : slot ∉ inner.slots) {session : Session κ}
  (version : Version)

include hslot in
theorem get?_run_limit_of_ne (hd : session.database ≠ database) (span : Nat) (m : Moment σ) :
    (((((Scraper.cached slot ttl inner).run session version).limit span).run m.time
        m.world).state.caches.cache slot).get? database =
      (m.world.caches.cache slot).get? database := by
  have hcache := inner.cache_run_limit hslot session version span m
  rcases Scraper.run_limit_cached_cases slot ttl inner session version span m with
    ⟨os, _, ho⟩ | ho | ⟨verdict, ho⟩
  · rw [ho]
  · rw [ho, hcache]
  · rw [ho, Caches.cache_store_self, Table.get?_put_of_ne _ _ (Ne.symm hd), hcache]

include hslot in
theorem keeps_run_elsewhere (hd : session.database ≠ database) :
    Scrape.Keeps (PacedLog inner.baseName database slot ttl)
      (CutLog inner.baseName database slot ttl)
      ((Scraper.cached slot ttl inner).run session version) := by
  refine Scrape.keeps_of_kept (fun _ _ h => h.weaken) ?_
  intro span log m h
  obtain ⟨begun, rest, hevents, hbegun, hrest⟩ :=
    (Scraper.cached slot ttl inner).events_run_limit session version span m
  refine h.append ?_ (get?_run_limit_of_ne hslot version hd span m)
  rw [hevents, List.forall_mem_append]
  refine ⟨?_, fun e he => start?_of_ofRun (hrest e he)⟩
  rcases hbegun with rfl | rfl <;> simp [Event.start?, hd]

include hslot in
/-- The scraper behind the cache starts only without a fresh entry, and is remembered if it
returns. -/
theorem keeps_run_cached :
    Scrape.Keeps (PacedLog inner.baseName session.database slot ttl)
      (CutLog inner.baseName session.database slot ttl)
      ((Scraper.cached slot ttl inner).run session version) := by
  intro span log m h
  cases hf : Scraper.fresh? slot ttl m session.database with
  | some os =>
    rw [Scraper.run_limit_cached_of_fresh hf]
    exact (h.append (fun e he => start?_of_ofRun (Scraper.ofRun_observed os e he)) rfl).keeps
  | none =>
    rw [Scraper.run_limit_cached_of_stale hf]
    obtain ⟨begun, rest, hevents, hbegun, hrest⟩ := inner.events_run_limit session version span m
    have hcache := inner.cache_run_limit hslot session version span m
    have hstale := fun e => Scraper.start_of_stale (e := e) hf
    have haside := Scraper.aside_begun hbegun
    have hmade : ∀ e ∈ Event.aside rest, e.made? ≠ none := by
      intro e he
      obtain ⟨hmem, hpassed⟩ := List.mem_filter.mp he
      have hrun := hrest e hmem
      cases e with
      | made o => exact Option.some_ne_none o
      | observed o => cases hpassed
      | _ => cases hrun
    cases hv : (((inner.run session version).limit span).run m.time m.world).value with
    | none =>
      simp only [hv, hevents, Event.aside_append, haside]
      refine ⟨fun k => ?_, by simp⟩
      rw [PacedLog, Start.all_append, Start.all_append, List.foldl_append, Start.foldl_made hmade]
      exact h.dropped hstale hbegun (congrArg (fun c : Cache => c.get? _) hcache) k
    | some verdict =>
      simp only [hv, hevents, Event.aside_append, haside]
      refine PacedLog.keeps ?_
      rw [PacedLog, Start.all_append, List.append_assoc, List.foldl_append, List.foldl_append,
        Start.foldl_made hmade]
      have hentry := Table.get?_put_self
        ((((inner.run session version).limit span).run m.time m.world).state.caches.cache slot)
        session.database
        (⟨m.time, Event.results (begun ++ rest)⟩ : CacheEntry)
      rw [← Caches.cache_store_self] at hentry
      exact (h.returned hstale hbegun hentry rfl).foldl fun e he =>
        start?_of_ofRun (Scraper.ofRun_observed _ e he)

end Cached
end Log

/-- A scraper is behind one cache of a set, and nothing else there has its name or its cache. -/
structure Sole (slot ttl : Nat) (inner : Scraper σ κ) (set : ScraperSet σ κ) : Prop where
  fresh : slot ∉ inner.slots
  others : ∀ r ∈ set.all,
    r = .cached slot ttl inner ∨ r.baseName ≠ inner.baseName ∧ slot ∉ r.slots

namespace Scrape

theorem invariant_paced {slot ttl : Nat} {inner : Scraper σ κ} {set : ScraperSet σ κ}
    (h : Sole slot ttl inner set) (database : String) :
    Invariant set.all (PacedLog inner.baseName database slot ttl)
      (CutLog inner.baseName database slot ttl) where
  weaken := PacedLog.weaken
  asked := by
    intro log m m' hkept hcaches
    simpa only [PacedLog, hcaches] using hkept
  reported _ hkept := hkept.append (by simp [Event.start?]) rfl
  requested _ hkept := hkept.append (by simp [Event.start?]) rfl
  opened _ _ _ hkept := hkept.append (by simp [Event.start?]) rfl
  closed _ _ hkept := hkept.append (by simp [Event.start?]) rfl
  segment := by
    intro r hr session version
    refine keeps_segment (fun _ _ h => h.weaken) ?_
      (fun _ _ _ hkept => hkept.append (by simp [Event.start?]) rfl)
      fun _ _ _ hkept => hkept.append (by simp [Event.start?]) rfl
    rcases h.others r hr with rfl | ⟨hname, hslot⟩
    · by_cases hd : session.database = database
      · subst hd
        exact keeps_run_cached h.fresh version
      · exact keeps_run_elsewhere h.fresh version hd
    · exact keeps_run_of_ne hname hslot session version

theorem held_append (log es : List Event) :
    Event.held (log ++ es) = es.foldl Event.holding (Event.held log) := List.foldl_append

theorem foldl_holding_of_ofRun {es : List Event} (hes : ∀ e ∈ es, Event.ofRun e) (held : List Nat) :
    es.foldl Event.holding held = held := by
  induction es with
  | nil => rfl
  | cons e rest ih =>
    rw [List.forall_mem_cons] at hes
    cases e with
    | made o => exact ih hes.2
    | observed o => exact ih hes.2
    | _ => cases hes.1

/-- While its scrapers run a scrape holds its first connection. -/
theorem invariant_held (scrapers : List (Scraper σ κ)) :
    Invariant scrapers (fun log (_ : Moment σ) => 0 ∈ Event.held log)
      fun log _ => 0 ∈ Event.held log where
  weaken := id
  asked h _ := h
  reported _ h := by rwa [held_append]
  requested _ h := by rwa [held_append]
  opened _ _ _ h := by
    rw [held_append]
    exact List.mem_append_left _ h
  closed _ hn h := by
    rw [held_append]
    exact (List.mem_erase_of_ne (Nat.ne_of_lt hn)).mpr h
  segment := by
    intro r _ session version
    refine keeps_segment (fun _ _ => id) (keeps_of_kept (fun _ _ => id) ?_)
      (fun _ _ _ h => by rwa [held_append]) fun _ _ _ h => by rwa [held_append]
    intro span log m h o
    obtain ⟨begun, rest, hevents, hbegun, hrest⟩ := r.events_run_limit session version span m
    have ho : o.events = begun ++ rest := hevents
    rw [ho, held_append, List.foldl_append, foldl_holding_of_ofRun hrest]
    rcases hbegun with rfl | rfl <;> exact h

end Scrape

namespace Service

variable {s : Service σ κ} {slot ttl : Nat} {inner : Scraper σ κ}

theorem start?_dropped (source database : String) (held : List Nat) :
    ∀ e ∈ held.map Event.dropped, e.start? source database = none := by
  intro e he
  obtain ⟨k, _, rfl⟩ := List.mem_map.mp he
  rfl

/-- A scrape keeps the runs of a cached scraper paced, also if it is dropped. -/
theorem paced_scrape (h : Sole slot ttl inner s.scrapers) (database : String)
    (only : List String) (log : List Event) (m : Moment σ)
    (hkept : PacedLog inner.baseName database slot ttl log m) :
    let o := (s.scrape only).run m.time m.world
    PacedLog inner.baseName database slot ttl (log ++ o.events) o.moment := by
  intro o
  let a := (s.attempt only).run m.time m.world
  have ho : o = ⟨a.time, a.state, a.events ++ (Event.held a.events).map .dropped,
      Event.results a.events⟩ := s.run_scrape only m.time m.world
  have hdrops := start?_dropped inner.baseName database (Event.held a.events)
  rw [ho]
  rcases Scrape.collect_cases s.gateway s.target s.scrapers s.excluded only s.timeout m with
    ⟨_, _, hevents, hcaches⟩ | ⟨_, _, hevents, hcaches⟩ | ⟨session, rest, _, hcaches, hrest⟩
  · have hlog : a.events = [.requested s.target.database] := hevents
    refine hkept.append (List.forall_mem_append.mpr ⟨?_, hdrops⟩) (by rw [← hcaches]; rfl)
    rw [hlog]
    simp [Event.start?]
  · have hlog : a.events = [.requested s.target.database, .observed (Scrape.up 0)] := hevents
    refine hkept.append (List.forall_mem_append.mpr ⟨?_, hdrops⟩) (by rw [← hcaches]; rfl)
    rw [hlog]
    simp [Event.start?]
  · let m₁ := Scrape.connected s.gateway s.target s.timeout m
    let p := ((Scrape.onServer s.gateway s.target s.scrapers s.excluded only session).limit rest).run
      m₁.time m₁.world
    have hgreeting : PacedLog inner.baseName database slot ttl
        (log ++ Scrape.greeting s.target) m₁ :=
      hkept.append (by simp [Scrape.greeting, Event.start?]) rfl
    obtain ⟨hcut, hreturned⟩ := (Scrape.invariant_paced h database).onServer s.gateway s.target
      s.excluded only session rest _ m₁ hgreeting
    have hsame : (a.state.caches.cache slot).get? database =
        (p.state.caches.cache slot).get? database := by
      rw [show a.state.caches = p.state.caches from hcaches]
    rcases hrest with ⟨_, _, hevents⟩ | ⟨hvalue, hevents⟩
    · -- the first connection is held, so something is dropped
      have hheld := ((Scrape.invariant_held s.scrapers.all).onServer s.gateway s.target
        s.excluded only session rest (Scrape.greeting s.target) m₁ List.mem_cons_self).1
      have hlog : a.events = Scrape.greeting s.target ++ p.events := hevents
      rw [← hlog] at hheld
      obtain ⟨k, ks, hks⟩ := List.exists_cons_of_ne_nil (List.ne_nil_of_mem hheld)
      have hafter : PacedLog inner.baseName database slot ttl _ ⟨a.time, a.state⟩ :=
        (hcut k).append (start?_dropped _ _ ks) hsame
      simp only [hks]
      simpa [hlog] using hafter
    · have hlog : a.events = Scrape.greeting s.target ++ p.events ++ [.closed 0] := hevents
      have hclosed : ∀ e ∈ [Event.closed 0] ++ (Event.held a.events).map Event.dropped,
          e.start? inner.baseName database = none :=
        List.forall_mem_append.mpr ⟨by simp [Event.start?], hdrops⟩
      have hafter : PacedLog inner.baseName database slot ttl _ ⟨a.time, a.state⟩ :=
        (hreturned () hvalue).append hclosed hsame
      simpa [hlog] using hafter

/-- In every history a cached scraper starts on a database more than its time to live after its last
start there, unless that run was cut. -/
theorem paced_history (h : Sole slot ttl inner s.scrapers) (database : String)
    (ops : List (Operation σ)) (m : Moment σ) :
    (Start.all inner.baseName database
      ((s.history ops).run m.time m.world).events).IsChain (Start.Apart ttl) := by
  have hnone : PacedLog inner.baseName database slot ttl [] m :=
    ⟨List.isChain_nil, by simp [Start.all]⟩
  have hidle : ∀ log (m m' : Moment σ) es, PacedLog inner.baseName database slot ttl log m →
      (∀ e ∈ es, Event.ofConnection e) → m'.world.caches = m.world.caches →
        PacedLog inner.baseName database slot ttl (log ++ es) m' := by
    intro log m m' es hkept hes hcaches
    refine hkept.append ?_ (by rw [hcaches])
    intro e he
    have hconnection := hes e he
    cases e with
    | started s d time => cases hconnection
    | _ => rfl
  have hkept := history_keeps hidle (fun only log m => paced_scrape h database only log m) ops [] m
    hnone
  exact hkept.apart

def patient : Service Rehearsal.Stage Nat := { hasty with timeout := 200 }

theorem sole_slow : Sole 0 60000 (.direct tardy.source) patient.scrapers := by
  refine ⟨List.not_mem_nil, fun r hr => ?_⟩
  exact Or.inl (List.mem_singleton.mp hr)

theorem paced_history_patient :
    let m : Moment Rehearsal.Stage := ⟨0, ⟨{ script := { version := "16.1" } }, .empty⟩⟩
    let runs := Start.all "slow" "postgres" ((patient.history
      [.scrapes [[]], .advance 1000, .scrapes [[]], .advance 60000, .scrapes [[]]]).run
        m.time m.world).events
    Sole 0 60000 (.direct tardy.source) patient.scrapers ∧
      runs = [⟨0, .returned⟩, ⟨61100, .returned⟩] ∧ runs.IsChain (Start.Apart 60000) :=
  ⟨sole_slow, by decide +kernel, paced_history sole_slow "postgres" _ _⟩

/-- Two scrapes that are cut off after 50 milliseconds both start the scraper, which should rest for
a minute. -/
theorem hasty_not_paced :
    let m : Moment Rehearsal.Stage := ⟨0, ⟨{ script := { version := "16.1" } }, .empty⟩⟩
    let runs := Start.all "slow" "postgres"
      ((hasty.history [.scrapes [[]], .scrapes [[]]]).run m.time m.world).events
    runs = [⟨0, .cut⟩, ⟨50, .cut⟩] ∧
      ¬ runs.IsChain fun b b' => b.time + 60000 < b'.time := by
  intro m runs
  have hruns : runs = [⟨0, .cut⟩, ⟨50, .cut⟩] := by decide +kernel
  refine ⟨hruns, ?_⟩
  rw [hruns]
  simp

end Service

namespace Selection

theorem nodup_slots : (Statistics.numbered.map Prod.snd).Nodup := by decide

theorem nodup_names : (Statistics.numbered.map fun e => e.1.2.name).Nodup := by decide

/-- Whatever is selected to be cached is alone behind its cache. -/
theorem sole_of_isCached (sel : Selection) (wire : Wire σ κ)
    {e : (CatalogEntry × Statistics.Statistic) × Nat} (he : e ∈ Statistics.numbered)
    (hcached : sel.isCached e.1.1.name) :
    Sole e.2 sel.ttl (.direct (e.1.2.source wire e.1.1.enabledByDefault)) (sel.scrapers wire) := by
  refine ⟨List.not_mem_nil, fun r hr => ?_⟩
  obtain ⟨e', he', rfl⟩ := exists_of_mem_all hr
  by_cases hsame : e' = e
  · left
    rw [hsame, scraper, if_pos hcached]
  · right
    have hname : e'.1.2.name ≠ e.1.2.name := fun heq =>
      hsame (List.inj_on_of_nodup_map nodup_names he' he heq)
    have hslot : e'.2 ≠ e.2 := fun heq =>
      hsame (List.inj_on_of_nodup_map nodup_slots he' he heq)
    unfold scraper
    split
    · exact ⟨hname, by simpa [Scraper.slots] using hslot.symm⟩
    · exact ⟨hname, List.not_mem_nil⟩

end Selection
end PgMetrics
