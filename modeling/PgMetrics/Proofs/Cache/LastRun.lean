import PgMetrics.Proofs.Scraper.Run
import PgMetrics.Rehearsal.Part
import Mathlib.Data.List.Dedup
import Mathlib.Data.List.Perm.Basic
import Mathlib.Data.List.Chain

/-! # A cache remembers the last run

A ledger notes every run of what a cache wraps: the database, the start, and what was pushed.  A
scrape of a database is answered from its latest run until more than the time to live has passed
since that run's start, and by a new run from then on.  A cached scraper gives the same answers over
every history of scrapes and passing time; its entries are the latest runs of the ledger.
-/
namespace PgMetrics.LastRun

variable {σ κ : Type}

inductive Step (κ : Type) where
  | scrape (session : Session κ) (version : Version)
  | advance (span : Nat)

def Step.database? : Step κ → Option String
  | .scrape session _ => some session.database
  | .advance _ => none

structure Reply where
  pushed : List Observation := []
  verdict : Option Verdict := none
  inside : List Event := []

def follow {S A R : Type} (next : S → A → S × R) (s : S) : List A → S × List R
  | [] => (s, [])
  | a :: rest =>
    let later := follow next (next s a).1 rest
    (later.1, (next s a).2 :: later.2)

def advance (s : Scraper σ κ) (m : Moment σ) : Step κ → Moment σ × Reply
  | .scrape session version =>
    let o := (s.run session version).run m.time m.world
    (o.moment, ⟨Event.results o.events, some o.value, Event.aside o.events⟩)
  | .advance span => (⟨m.time + span, m.world⟩, {})

structure Run where
  database : String
  start : Nat
  pushed : List Observation

/-- All runs so far, first one first, and the moment that what the cache wraps has come to. -/
structure Ledger (σ : Type) where
  moment : Moment σ
  runs : List Run := []

namespace Ledger

def runsOn (l : Ledger σ) (database : String) : List Run :=
  l.runs.filter fun r => r.database = database

def latest? (l : Ledger σ) (database : String) : Option Run := (l.runsOn database).getLast?

def standing? (ttl : Nat) (l : Ledger σ) (database : String) : Option Run :=
  (l.latest? database).filter fun r => l.moment.time ≤ r.start + ttl

def rerun (inner : Scraper σ κ) (l : Ledger σ) (session : Session κ) (version : Version) :
    Ledger σ × Reply :=
  let o := (inner.run session version).run l.moment.time l.moment.world
  let pushed := Event.results o.events
  (⟨o.moment, l.runs ++ [⟨session.database, l.moment.time, pushed⟩]⟩,
    ⟨pushed, some o.value, Event.aside o.events⟩)

def step (ttl : Nat) (inner : Scraper σ κ) (l : Ledger σ) : Step κ → Ledger σ × Reply
  | .scrape session version =>
    match l.standing? ttl session.database with
    | some r => (l, { pushed := r.pushed, verdict := some (.ok ()) })
    | none => l.rerun inner session version
  | .advance span => ({ l with moment := ⟨l.moment.time + span, l.moment.world⟩ }, {})

def Apart (ttl : Nat) (l : Ledger σ) : Prop :=
  ∀ d, (l.runsOn d).IsChain fun a b => a.start + ttl < b.start

theorem runsOn_rerun (inner : Scraper σ κ) (l : Ledger σ) (session : Session κ) (version : Version)
    (d : String) : (l.rerun inner session version).1.runsOn d = l.runsOn d ++
      if session.database = d then
        [⟨session.database, l.moment.time, (l.rerun inner session version).2.pushed⟩]
      else [] := by
  by_cases h : session.database = d <;> simp [rerun, runsOn, h]

theorem latest?_rerun_self (inner : Scraper σ κ) (l : Ledger σ) (session : Session κ)
    (version : Version) : (l.rerun inner session version).1.latest? session.database =
      some ⟨session.database, l.moment.time, (l.rerun inner session version).2.pushed⟩ := by
  rw [latest?, runsOn_rerun, if_pos rfl, List.getLast?_concat]

theorem latest?_rerun_of_ne (inner : Scraper σ κ) (l : Ledger σ) (session : Session κ)
    (version : Version) {d : String} (h : session.database ≠ d) :
    (l.rerun inner session version).1.latest? d = l.latest? d := by
  rw [latest?, runsOn_rerun, if_neg h, List.append_nil, latest?]

theorem latest?_eq_none_iff (l : Ledger σ) (d : String) :
    l.latest? d = none ↔ ∀ r ∈ l.runs, r.database ≠ d := by
  simp [latest?, runsOn]

theorem standing?_eq_none_iff (ttl : Nat) (l : Ledger σ) (d : String) :
    l.standing? ttl d = none ↔ ∀ r, l.latest? d = some r → r.start + ttl < l.moment.time := by
  simp [standing?, Option.filter_eq_none_iff]

/-- A new run begins only when the latest one on its database has ceased to stand. -/
theorem step_apart (ttl : Nat) (inner : Scraper σ κ) {l : Ledger σ} (h : l.Apart ttl)
    (a : Step κ) : (l.step ttl inner a).1.Apart ttl := by
  cases a with
  | advance span => exact h
  | scrape session version =>
    cases hs : l.standing? ttl session.database with
    | some r => simpa only [step, hs] using h
    | none =>
      intro d
      simp only [step, hs, runsOn_rerun]
      by_cases heq : session.database = d
      · subst heq
        rw [if_pos rfl, List.isChain_append]
        refine ⟨h _, List.isChain_singleton _, ?_⟩
        intro r hr y hy
        simp only [List.head?_cons, Option.mem_def, Option.some.injEq] at hy
        subst hy
        exact (l.standing?_eq_none_iff ttl _).mp hs r hr
      · rw [if_neg heq, List.append_nil]
        exact h d

/-- A database has a run once it has been scraped. -/
theorem mem_databases_step (ttl : Nat) (inner : Scraper σ κ) (l : Ledger σ) (a : Step κ)
    (d : String) : d ∈ (l.step ttl inner a).1.runs.map Run.database ↔
      d ∈ l.runs.map Run.database ∨ a.database? = some d := by
  cases a with
  | advance span => simp [step, Step.database?]
  | scrape session version =>
    cases hs : l.standing? ttl session.database with
    | none => simp [step, hs, rerun, Step.database?, eq_comm]
    | some r =>
      have hlatest : l.latest? session.database = some r := (Option.filter_eq_some_iff.mp hs).1
      have hmem : r ∈ l.runsOn session.database := List.mem_of_getLast? hlatest
      obtain ⟨hr, hdb⟩ := List.mem_filter.mp hmem
      simp only [step, hs, Step.database?, Option.some.injEq]
      constructor
      · exact Or.inl
      · rintro (h | h)
        · exact h
        · exact List.mem_map.mpr ⟨r, hr, by simpa [h] using hdb⟩

end Ledger

/-- Related machines that answer alike do so over any number of steps. -/
theorem follow_related {S T A R : Type} {next : S → A → S × R} {next' : T → A → T × R}
    {related : S → T → Prop} (hstep : ∀ s t a, related s t →
      (next s a).2 = (next' t a).2 ∧ related (next s a).1 (next' t a).1)
    (steps : List A) {s : S} {t : T} (h : related s t) :
    (follow next s steps).2 = (follow next' t steps).2 ∧
      related (follow next s steps).1 (follow next' t steps).1 := by
  induction steps generalizing s t with
  | nil => exact ⟨rfl, h⟩
  | cons a rest ih =>
    obtain ⟨hr, hn⟩ := hstep s t a h
    obtain ⟨hrs, hend⟩ := ih hn
    exact ⟨by simp only [follow, hr, hrs], hend⟩

/-- What every step keeps holds after any number of steps. -/
theorem follow_keeps {S A R : Type} {next : S → A → S × R} {kept : S → Prop}
    (hstep : ∀ s a, kept s → kept (next s a).1) (steps : List A) {s : S} (h : kept s) :
    kept (follow next s steps).1 := by
  induction steps generalizing s with
  | nil => exact h
  | cons a rest ih => exact ih (hstep s a h)

theorem follow_concat {S A R : Type} (next : S → A → S × R) (s : S) (steps : List A) (a : A) :
    (follow next s (steps ++ [a])).1 = (next (follow next s steps).1 a).1 := by
  induction steps generalizing s with
  | nil => rfl
  | cons b rest ih => exact ih _

def cacheAt (slot : Nat) (m : Moment σ) : Cache := m.world.caches.cache slot

/-- The moment that a ledger has come to, but for the cache, whose entries are the latest runs. -/
structure Mirrors (slot : Nat) (m : Moment σ) (l : Ledger σ) : Prop where
  time : m.time = l.moment.time
  others : Scraper.AgreeOff slot m.world l.moment.world
  entries : ∀ d, (cacheAt slot m).get? d =
    (l.latest? d).map fun r => ⟨r.start, r.pushed⟩

/-- What a cache serves is what the latest run pushed, while that run stands. -/
theorem Mirrors.fresh?_eq {slot : Nat} {m : Moment σ} {l : Ledger σ} (h : Mirrors slot m l)
    (ttl : Nat) (d : String) :
    Scraper.fresh? slot ttl m d = (l.standing? ttl d).map Run.pushed := by
  have hentry := h.entries d
  unfold Scraper.fresh? Cache.fresh? Ledger.standing?
  rw [cacheAt] at hentry
  cases hl : l.latest? d with
  | none =>
    rw [hl] at hentry
    simp [hentry]
  | some r =>
    have hage : m.time - r.start ≤ ttl ↔ l.moment.time ≤ r.start + ttl := by
      rw [h.time]
      omega
    rw [hl, Option.map_some] at hentry
    simp only [hentry, CacheEntry.fresh, hage, Option.filter, decide_eq_true_eq]
    split <;> rfl

/-- Storing what a run has pushed is noting the run. -/
theorem Mirrors.store {slot : Nat} {inner : Scraper σ κ} (hslot : slot ∉ inner.slots)
    {m : Moment σ} {l : Ledger σ} (h : Mirrors slot m l) (session : Session κ) (version : Version) :
    let o := (inner.run session version).run m.time m.world
    let entry : CacheEntry := ⟨m.time, Event.results o.events⟩
    Mirrors slot ⟨o.time, { o.state with
      caches := o.state.caches.store slot session.database entry }⟩
      (l.rerun inner session version).1 := by
  intro o entry
  obtain ⟨ht, he, _, hw, hc⟩ := inner.run_agreeOff hslot session version m.time h.others
  refine ⟨?_, ⟨?_, ?_⟩, ?_⟩
  · simpa only [Ledger.rerun, Activity.Outcome.moment, ← h.time] using ht
  · simpa only [Ledger.rerun, Activity.Outcome.moment, ← h.time] using hw.1
  · intro k hk
    rw [Caches.cache_store_of_ne _ _ _ hk]
    simpa only [Ledger.rerun, Activity.Outcome.moment, ← h.time] using hw.2 k hk
  · intro d
    rw [cacheAt, Caches.cache_store_self, hc]
    by_cases hd : d = session.database
    · subst hd
      rw [Table.get?_put_self, Ledger.latest?_rerun_self, Option.map_some, ← h.time]
      simp only [Ledger.rerun, entry, o, ← h.time, he]
    · rw [Table.get?_put_of_ne _ _ hd, l.latest?_rerun_of_ne _ _ _ (Ne.symm hd)]
      exact h.entries d

/-- A step of the cached scraper is a step of the ledger. -/
theorem Mirrors.step {slot : Nat} (ttl : Nat) {inner : Scraper σ κ} (hslot : slot ∉ inner.slots)
    (m : Moment σ) (l : Ledger σ) (a : Step κ) (h : Mirrors slot m l) :
    (advance (.cached slot ttl inner) m a).2 = (l.step ttl inner a).2 ∧
      Mirrors slot (advance (.cached slot ttl inner) m a).1 (l.step ttl inner a).1 := by
  cases a with
  | advance span =>
    exact ⟨rfl, ⟨congrArg (· + span) h.time, h.others, h.entries⟩⟩
  | scrape session version =>
    have hserved := h.fresh?_eq ttl session.database
    cases hs : l.standing? ttl session.database with
    | some r =>
      have hfresh : Scraper.fresh? slot ttl m session.database = some r.pushed := by
        rw [hserved, hs, Option.map_some]
      have hrun := Scraper.run_cached_of_fresh hfresh inner version
      simp only [advance, hrun, Ledger.step, hs, Event.results_observed, Event.aside_observed]
      exact ⟨trivial, h⟩
    | none =>
      have hstale : Scraper.fresh? slot ttl m session.database = none := by
        rw [hserved, hs, Option.map_none]
      have hrun := Scraper.run_cached_of_stale hstale inner version
      obtain ⟨_, he, hv, _, _⟩ := inner.run_agreeOff hslot session version m.time h.others
      simp only [advance, hrun, Ledger.step, hs]
      refine ⟨?_, h.store hslot session version⟩
      simp [Ledger.rerun, he, hv, ← h.time]

/-- A step changes at most the entry of the database that it scrapes. -/
theorem cacheAt_advance {slot : Nat} (ttl : Nat) {inner : Scraper σ κ}
    (hslot : slot ∉ inner.slots) (m : Moment σ) (a : Step κ) :
    cacheAt slot (advance (.cached slot ttl inner) m a).1 = cacheAt slot m ∨
      ∃ d e, a.database? = some d ∧
        cacheAt slot (advance (.cached slot ttl inner) m a).1 = (cacheAt slot m).put d e := by
  cases a with
  | advance span => exact Or.inl rfl
  | scrape session version =>
    cases hf : Scraper.fresh? slot ttl m session.database with
    | some os =>
      left
      simp only [advance, Scraper.run_cached_of_fresh hf, Activity.Outcome.moment]
    | none =>
      right
      refine ⟨session.database, ⟨m.time, Event.results
        ((inner.run session version).run m.time m.world).events⟩, rfl, ?_⟩
      simp only [advance, Scraper.run_cached_of_stale hf, Activity.Outcome.moment, cacheAt]
      rw [Caches.cache_store_self, inner.cache_run hslot]

theorem entry_of_other {slot : Nat} (ttl : Nat) {inner : Scraper σ κ}
    (hslot : slot ∉ inner.slots) (m : Moment σ) {a : Step κ} {d : String}
    (h : a.database? ≠ some d) :
    (cacheAt slot (advance (.cached slot ttl inner) m a).1).get? d = (cacheAt slot m).get? d := by
  rcases cacheAt_advance ttl hslot m a with hc | ⟨d', e, ha, hc⟩
  · rw [hc]
  · have hd : d ≠ d' := by
      rintro rfl
      exact h ha
    rw [hc, Table.get?_put_of_ne _ _ hd]

theorem nodup_keys_advance {slot : Nat} (ttl : Nat) {inner : Scraper σ κ}
    (hslot : slot ∉ inner.slots) (m : Moment σ) (a : Step κ) (h : (cacheAt slot m).keys.Nodup) :
    (cacheAt slot (advance (.cached slot ttl inner) m a).1).keys.Nodup := by
  rcases cacheAt_advance ttl hslot m a with hc | ⟨d, e, _, hc⟩
  · rwa [hc]
  · rw [hc]
    exact Table.nodup_keys_put h d e

/-- The databases with an entry are those with a run. -/
theorem Mirrors.mem_keys_iff {slot : Nat} {m : Moment σ} {l : Ledger σ} (h : Mirrors slot m l)
    (d : String) : d ∈ (cacheAt slot m).keys ↔ d ∈ l.runs.map Run.database := by
  rw [Table.mem_keys_iff, h.entries, Option.isSome_map, Option.isSome_iff_ne_none, Ne,
    Ledger.latest?_eq_none_iff]
  simp

theorem mem_databases_follow (ttl : Nat) (inner : Scraper σ κ) (l : Ledger σ)
    (steps : List (Step κ)) (d : String) :
    d ∈ (follow (Ledger.step ttl inner) l steps).1.runs.map Run.database ↔
      d ∈ l.runs.map Run.database ∨ d ∈ steps.filterMap Step.database? := by
  induction steps generalizing l with
  | nil => simp [follow]
  | cons a rest ih =>
    have hmem : d ∈ (a :: rest).filterMap Step.database? ↔
        a.database? = some d ∨ d ∈ rest.filterMap Step.database? := by
      simp
    rw [follow, ih, Ledger.mem_databases_step, hmem, or_assoc]

/-- What a cached scraper keeps over a history from a new cache: it answers each step as the ledger
does, its entries are the latest runs, runs on one database are more than `ttl` apart, a further
step leaves the entries of other databases alone, and there is one entry for each database. -/
structure Refines (slot ttl : Nat) (inner : Scraper σ κ) (start : Moment σ)
    (steps : List (Step κ)) : Prop where
  replies : (follow (advance (.cached slot ttl inner)) start steps).2 =
    (follow (Ledger.step ttl inner) ⟨start, []⟩ steps).2
  mirrors : Mirrors slot (follow (advance (.cached slot ttl inner)) start steps).1
    (follow (Ledger.step ttl inner) ⟨start, []⟩ steps).1
  apart : (follow (Ledger.step ttl inner) ⟨start, []⟩ steps).1.Apart ttl
  others : ∀ a d, a.database? ≠ some d →
    (cacheAt slot (follow (advance (.cached slot ttl inner)) start (steps ++ [a])).1).get? d =
      (cacheAt slot (follow (advance (.cached slot ttl inner)) start steps).1).get? d
  size : (cacheAt slot (follow (advance (.cached slot ttl inner)) start steps).1).size =
    (steps.filterMap Step.database?).dedup.length

/-- A scraper behind a new cache of its own refines the ledger of its runs. -/
theorem cached_refines_ledger (slot ttl : Nat) (inner : Scraper σ κ) (hslot : slot ∉ inner.slots)
    (start : Moment σ) (hnew : cacheAt slot start = .empty) (steps : List (Step κ)) :
    Refines slot ttl inner start steps := by
  have hstart : Mirrors slot start ⟨start, []⟩ := by
    refine ⟨rfl, ⟨rfl, fun _ _ => rfl⟩, ?_⟩
    intro d
    rw [hnew]
    rfl
  obtain ⟨hreplies, hmirrors⟩ := follow_related (Mirrors.step ttl hslot) steps hstart
  refine ⟨hreplies, hmirrors, ?_, ?_, ?_⟩
  · exact follow_keeps (fun l a h => l.step_apart ttl inner h a) steps
      (fun d => List.isChain_nil)
  · intro a d h
    rw [follow_concat]
    exact entry_of_other ttl hslot _ h
  · have hkeys := follow_keeps (fun m a h => nodup_keys_advance ttl hslot m a h) steps
      (s := start) (by simp [hnew, Table.keys, Table.empty])
    have hsame : ∀ d, d ∈ (cacheAt slot
        (follow (advance (.cached slot ttl inner)) start steps).1).keys ↔
        d ∈ (steps.filterMap Step.database?).dedup := by
      intro d
      rw [hmirrors.mem_keys_iff, mem_databases_follow, List.mem_dedup]
      simp
    have hperm := (List.perm_ext_iff_of_nodup hkeys (List.nodup_dedup _)).mpr hsame
    rw [← hperm.length_eq, Table.keys, List.length_map, Table.size]

def sluggish : Rehearsal.Part where
  name := "disk_usage"
  cues := [⟨.gauge, "disk_calls", [("datname", .database)], .calls, "Calls."⟩,
    ⟨.gauge, "disk_conn", [("datname", .database)], .connection, "Connection."⟩]
  failing := .runs [1]
  delay := 70

def alternation : List (Step Nat) :=
  [.scrape ⟨"a", 0⟩ .zero, .scrape ⟨"a", 0⟩ .zero, .scrape ⟨"b", 1⟩ .zero, .scrape ⟨"b", 2⟩ .zero,
    .scrape ⟨"a", 3⟩ .zero, .advance 1, .scrape ⟨"a", 4⟩ .zero]

/-- From time 5 on, with 140 milliseconds to live: the entry of `a` is served at the age of 140 and
replaced at the age of 141. -/
theorem cached_refines_ledger_sluggish :
    0 ∉ (Scraper.direct sluggish.source).slots ∧
      cacheAt 0 (⟨5, ⟨{}, .empty⟩⟩ : Moment Rehearsal.Stage) = .empty ∧
      Refines 0 140 (.direct sluggish.source) ⟨5, ⟨{}, .empty⟩⟩ alternation ∧
      (follow (Ledger.step 140 (.direct sluggish.source)) ⟨⟨5, ⟨{}, .empty⟩⟩, []⟩
        alternation).1.runs.map (fun r => (r.database, r.start)) =
          [("a", 5), ("b", 75), ("a", 146)] := by
  refine ⟨by decide, rfl, cached_refines_ledger 0 140 _ (by decide) _ rfl _, ?_⟩
  decide +kernel

end PgMetrics.LastRun
