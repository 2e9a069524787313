import PgMetrics.Proofs.Scrape.Along
import PgMetrics.Proofs.Service.Delivery
import PgMetrics.Proofs.Service.Traffic

/-! # Caches after a scrape that was dropped

An entry of a cache is replaced only when a run of what the cache wraps has returned, by all that this
run has made and its start.  So wherever a scrape is dropped, each entry is the one that it found or
the whole of a refresh that came to its end in time; the run that was cut has changed nothing, and the
next scrape finds what is left.
-/
namespace PgMetrics

open Activity (Path)

variable {σ κ γ : Type}

inductive Scraper.Wraps : Scraper σ κ → Nat → Nat → Scraper σ κ → Prop where
  | here (slot ttl : Nat) (inner : Scraper σ κ) : Wraps (.cached slot ttl inner) slot ttl inner
  | inside {s inner : Scraper σ κ} {slot ttl : Nat} (slot' ttl' : Nat) :
      Wraps s slot ttl inner → Wraps (.cached slot' ttl' s) slot ttl inner

def Caches.stored? (cs : Caches) (slot : Nat) (database : String) : Option CacheEntry :=
  (cs.cache slot).get? database

theorem Caches.stored?_store (cs : Caches) (slot : Nat) (d : String) (e : CacheEntry) (slot' : Nat)
    (d' : String) : (cs.store slot d e).stored? slot' d' =
      if slot' = slot ∧ d' = d then some e else cs.stored? slot' d' := by
  unfold stored?
  by_cases hslot : slot' = slot
  · subst hslot
    rw [cache_store_self]
    by_cases hd : d' = d
    · subst hd
      rw [Table.get?_put_self, if_pos ⟨rfl, rfl⟩]
    · rw [Table.get?_put_of_ne _ _ hd, if_neg fun h => hd h.2]
  · rw [cache_store_of_ne _ _ _ hslot, if_neg fun h => hslot h.1]

/-- An entry is all that a run behind that cache of the scraper made on the database: the run began
when there was no fresh entry, and it returned by `time`. -/
structure Refreshes (view : World σ → γ) (s : Scraper σ κ) (slot : Nat) (database : String)
    (log : Log) (time : Nat) (e : CacheEntry) : Prop where
  run : ∃ ttl inner, s.Wraps slot ttl inner ∧
    ∃ (session : Session κ) (version : Version) (w w' : World σ) (made : Log) (returned : Nat)
      (verdict : Verdict),
      session.database = database ∧ Scraper.fresh? slot ttl ⟨e.start, w⟩ database = none ∧
        Path view (inner.run session version) e.start w made returned w' (some verdict) ∧
        returned ≤ time ∧ e.observations = made.results ∧ made.aside <:+: log

namespace Refreshes

variable {view : World σ → γ} {s : Scraper σ κ} {slot : Nat} {database : String} {log log' : Log}
  {time time' : Nat} {e : CacheEntry}

theorem later (h : Refreshes view s slot database log time e) (hlog : log <:+: log')
    (htime : time ≤ time') : Refreshes view s slot database log' time' e := by
  obtain ⟨ttl, inner, hwraps, session, version, w, w', made, returned, verdict, hd, hstale, hpath,
    hreturned, hobservations, hmade⟩ := h.run
  exact ⟨ttl, inner, hwraps, session, version, w, w', made, returned, verdict, hd, hstale, hpath,
    hreturned.trans htime, hobservations, hmade.trans hlog⟩

theorem inside (h : Refreshes view s slot database log time e) (slot' ttl' : Nat) :
    Refreshes view (.cached slot' ttl' s) slot database log.aside time e := by
  obtain ⟨ttl, inner, hwraps, session, version, w, w', made, returned, verdict, hd, hstale, hpath,
    hreturned, hobservations, hmade⟩ := h.run
  have haside : made.aside.aside = made.aside := by simp [Log.aside]
  refine ⟨ttl, inner, hwraps.inside slot' ttl', session, version, w, w', made, returned, verdict, hd,
    hstale, hpath, hreturned, hobservations, ?_⟩
  rw [← haside]
  exact hmade.filter _

end Refreshes

section Run
variable {view : World σ → γ} (hview : ∀ w w', view w = view w' → w.caches = w'.caches)
  {time time' : Nat} {w w' : World σ} {es : Log}

include hview

/-- A run that is dropped changes no cache. -/
theorem Scraper.caches_of_dropped {s : Scraper σ κ} {session : Session κ} {version : Version}
    (h : Path view (s.run session version) time w es time' w' none) : w.caches = w'.caches := by
  induction s generalizing es w' with
  | direct source => exact (path_direct hview h).1
  | cached slot ttl inner ih =>
    rcases path_cached_cases hview h with ⟨_, _, _, _, _, hv⟩ | ⟨_, made, hcut | hreturned⟩
    · cases hv
    · exact ih hcut.1
    · obtain ⟨_, _, _, _, _, hv⟩ := hreturned
      cases hv

/-- A run that returns leaves each entry as it was or replaces it by a refresh. -/
theorem Scraper.refreshes_of_returned {s : Scraper σ κ} {session : Session κ} {version : Version}
    {verdict : Verdict} (h : Path view (s.run session version) time w es time' w' (some verdict))
    (slot : Nat) (d : String) :
    w'.caches.stored? slot d = w.caches.stored? slot d ∨
      ∃ e, w'.caches.stored? slot d = some e ∧ time ≤ e.start ∧
        Refreshes view s slot d es time' e := by
  induction s generalizing es w' verdict with
  | direct source => exact Or.inl (by rw [(path_direct hview h).1])
  | cached slot' ttl inner ih =>
    rcases path_cached_cases hview h with ⟨_, _, _, hcaches, _⟩ | ⟨hstale, made, hcut | hreturned⟩
    · exact Or.inl (by rw [hcaches])
    · cases hcut.2.2
    · obtain ⟨w₁, verdict', hinner, rfl, hcaches, _⟩ := hreturned
      rw [hcaches, Caches.stored?_store]
      by_cases hentry : slot = slot' ∧ d = session.database
      · obtain ⟨rfl, rfl⟩ := hentry
        rw [if_pos ⟨rfl, rfl⟩]
        refine Or.inr ⟨_, rfl, Nat.le_refl _, ttl, inner, .here _ _ _, session, version, w, w₁, made, time',
          verdict', rfl, hstale, hinner, Nat.le_refl _, rfl, ?_⟩
        exact (List.prefix_append _ _).isInfix
      · rw [if_neg hentry]
        rcases ih hinner with hsame | ⟨e, he, hstart, hrefreshes⟩
        · exact Or.inl hsame
        · refine Or.inr ⟨e, he, hstart, (hrefreshes.inside slot' ttl).later ?_ (Nat.le_refl _)⟩
          exact (List.prefix_append _ _).isInfix

end Run

namespace Scrape

variable {view : World σ → γ} {scrapers : List (Scraper σ κ)} {m₀ m m' : Moment σ} {log log' : Log}

def Refreshed (view : World σ → γ) (scrapers : List (Scraper σ κ)) (m₀ : Moment σ) (log : Log)
    (m : Moment σ) : Prop :=
  m₀.time ≤ m.time ∧ ∀ slot d,
    m.world.caches.stored? slot d = m₀.world.caches.stored? slot d ∨
      ∃ e, m.world.caches.stored? slot d = some e ∧ m₀.time ≤ e.start ∧
        ∃ s ∈ scrapers, Refreshes view s slot d log m.time e

/-- That held until a run that was dropped and has changed nothing. -/
def CutOff (view : World σ → γ) (scrapers : List (Scraper σ κ)) (m₀ : Moment σ) (log : Log)
    (m : Moment σ) : Prop :=
  ∃ before cut m₁, log = before ++ cut ∧ Refreshed view scrapers m₀ before m₁ ∧
    m₁.time ≤ m.time ∧ m₁.world.caches = m.world.caches ∧
    (cut = [] ∨ ∃ s ∈ scrapers, ∃ session version,
      Path view (s.run session version) m₁.time m₁.world cut m.time m.world none)

theorem Refreshed.later (h : Refreshed view scrapers m₀ log m) (hlog : log <:+: log')
    (htime : m.time ≤ m'.time) (hcaches : m.world.caches = m'.world.caches) :
    Refreshed view scrapers m₀ log' m' := by
  refine ⟨Nat.le_trans h.1 htime, fun slot d => ?_⟩
  rw [← hcaches]
  rcases h.2 slot d with hsame | ⟨e, he, hstart, s, hs, hrefreshes⟩
  · exact Or.inl hsame
  · exact Or.inr ⟨e, he, hstart, s, hs, hrefreshes.later hlog htime⟩

theorem CutOff.refreshed (h : CutOff view scrapers m₀ log m) :
    Refreshed view scrapers m₀ log m := by
  obtain ⟨before, cut, m₁, rfl, hrefreshed, htime, hcaches, _⟩ := h
  exact hrefreshed.later (List.prefix_append _ _).isInfix htime hcaches

theorem maintained_refreshed (hview : ∀ w w', view w = view w' → w.caches = w'.caches)
    (g : Gateway σ κ) (target : Target) (scrapers : List (Scraper σ κ)) (m₀ : Moment σ) :
    Maintained view g target scrapers (fun _ => Refreshed view scrapers m₀)
      (CutOff view scrapers m₀) where
  caches := hview
  weaken {_ log m} h :=
    ⟨log, [], m, (List.append_nil _).symm, h, Nat.le_refl _, rfl, Or.inl rfl⟩
  stable h htime hcaches := h.later List.infix_rfl htime hcaches
  step h _ := h.later (List.prefix_append _ _).isInfix (Nat.le_refl _) rfl
  segment s hs _ session version _ _ := by
    intro log m es m' v h hpath
    rcases path_segment_cases hpath with ⟨rfl, hcut⟩ | ⟨run, w₁, verdict, rfl, hw₁, hrun, rfl⟩
    · exact ⟨log, es, m, rfl, h, hcut.le, Scraper.caches_of_dropped hview hcut,
        Or.inr ⟨s, hs, session, version, hcut⟩⟩
    · have hcaches : w₁.caches = m'.world.caches := hview _ _ hw₁
      have htime : m.time ≤ m'.time := hrun.le
      refine ⟨Nat.le_trans h.1 htime, fun slot d => ?_⟩
      rw [← hcaches]
      rcases Scraper.refreshes_of_returned hview hrun slot d with hsame | ⟨e, he, hstart, hnew⟩
      · rw [hsame]
        rcases h.2 slot d with hsame | ⟨e, he, hstart, s', hs', hold⟩
        · exact Or.inl hsame
        · exact Or.inr ⟨e, he, hstart, s', hs', hold.later (List.prefix_append _ _).isInfix htime⟩
      · refine Or.inr ⟨e, he, Nat.le_trans h.1 hstart, s, hs, hnew.later ?_ (Nat.le_refl _)⟩
        exact ⟨log, _, List.append_assoc _ _ _⟩

end Scrape

def ScrapeCall.found? (c : ScrapeCall σ) : Option (World σ) :=
  match c.turn with
  | .waiting => none
  | .running _ found _ => some found
  | .returned report => some report.found

structure Traffic.Intact (s : Service σ κ) (t : Traffic σ) (number : Nat) (report : Report σ) :
    Prop where
  deadline : report.ended = report.since + s.timeout
  entries : ∀ slot d, report.left.caches.stored? slot d = report.found.caches.stored? slot d ∨
    ∃ e, report.left.caches.stored? slot d = some e ∧ report.since ≤ e.start ∧
      ∃ r ∈ s.scrapers.all, Refreshes World.caches r slot d report.log report.ended e
  interrupted : ∃ log, report.log = log ++ (Event.held log.events).map (report.ended, .dropped ·) ∧
    Scrape.CutOff World.caches s.scrapers.all ⟨report.since, report.found⟩ log
      ⟨report.ended, report.left⟩
  released : t.holder ≠ some number
  next : ∀ c w, t.scrapes[number + 1]? = some c → c.found? = some w →
    w.caches = report.left.caches
  free : (∀ c, t.scrapes[number + 1]? = some c → c.turn = .waiting) →
    t.holder = none ∧ t.world.caches = report.left.caches

namespace Traffic

section Handed
variable {s : Service σ κ} {m m₁ : Moment σ} {t : Traffic σ} {past future : List (ScrapeCall σ)}
  {current : Option (ScrapeCall σ)} (h : Ordered World.caches s m t past m₁ current future)
  {number : Nat} {c : ScrapeCall σ} {report : Report σ} (hc : t.scrapes[number]? = some c)
  (hturn : c.turn = .returned report)

include h hc hturn

/-- A scrape that has returned has handed the lock and the caches on. -/
theorem handed_on : c ∈ past ∧ t.holder ≠ some number ∧
    (∀ c' w, t.scrapes[number + 1]? = some c' → c'.found? = some w →
      w.caches = report.left.caches) ∧
    ((∀ c', t.scrapes[number + 1]? = some c' → c'.turn = .waiting) →
      t.holder = none ∧ t.world.caches = report.left.caches) := by
  have hpast := h.getElem?_of_returned hc hturn
  obtain ⟨hlt, hget⟩ := List.getElem?_eq_some_iff.mp hpast
  have hsplit : past = (past.take number ++ [c]) ++ past.drop (number + 1) := by
    rw [← hget, List.take_append_getElem hlt, List.take_append_drop]
  have hturns := h.turns
  rw [hsplit] at hturns
  obtain ⟨m₂, hbefore, hlast, hhead⟩ := hturns.split
  obtain ⟨report', hreport', rfl⟩ := hbefore.last
  rw [hturn, Turn.returned.injEq] at hreport'
  subst hreport'
  have hend : number + 1 = past.length → m₁ = ⟨report.ended, report.left⟩ := fun hlength =>
    (hlast (List.drop_eq_nil_iff.mpr (by omega))).symm
  refine ⟨List.mem_of_getElem? hpast, ?_, ?_, ?_⟩
  · rw [h.holder]
    cases current with
    | none => simp
    | some _ =>
      simp only [Option.map_some, ne_eq, Option.some.injEq]
      omega
  · intro c' w hc' hw
    rcases h.cases_of_getElem? hc' with hpast' | ⟨hlength, hcurrent⟩ | hfuture
    · have hmem : c' ∈ (past.drop (number + 1)).head? := by
        rw [List.head?_drop]
        exact hpast'
      obtain ⟨report', hreport', _, hfound⟩ := hhead c' hmem
      simp only [ScrapeCall.found?, hreport', Option.some.injEq] at hw
      rw [← hw]
      exact hfound.symm
    · obtain ⟨since, found, thread, hunderway⟩ := h.taken c' hcurrent
      have hfound := hunderway.same
      rw [hend hlength] at hfound
      simp only [ScrapeCall.found?, hunderway.turn, Option.some.injEq] at hw
      rw [← hw]
      exact hfound.symm
    · simp [ScrapeCall.found?, (h.waiting c' hfuture).1] at hw
  · intro hwaiting
    have hlength : number + 1 = past.length := by
      by_contra hne
      have hlt' : number + 1 < past.length := by omega
      have hget' : t.scrapes[number + 1]? = some past[number + 1] := by
        rw [h.scrapes, List.append_assoc, List.getElem?_append_left hlt', List.getElem?_eq_getElem]
      obtain ⟨_, _, _, _, _, _, hreturned, _⟩ :=
        h.turns.exists_path (List.getElem_mem hlt')
      rw [hwaiting _ hget'] at hreturned
      cases hreturned
    have hcurrent : current = none := by
      cases hcurrent : current with
      | none => rfl
      | some c' =>
        have hget' : t.scrapes[number + 1]? = some c' := by
          rw [h.scrapes, hcurrent, hlength]
          simp
        obtain ⟨_, _, _, hunderway⟩ := h.taken c' hcurrent
        have hrunning := hunderway.turn
        rw [hwaiting c' hget'] at hrunning
        cases hrunning
    refine ⟨by rw [h.holder, hcurrent]; rfl, ?_⟩
    have hworld := (h.free hcurrent).1
    rw [hend hlength] at hworld
    exact hworld.symm

end Handed

/-- A scrape that is dropped leaves each entry of the caches as it was or as a whole refresh, and the
next one starts from there. -/
theorem intact_of_cut (s : Service σ κ) (m : Moment σ) (moves : List (Move σ)) {number : Nat}
    {report : Report σ}
    (hreport : ((start m.time m.world).follow s moves).report? number = some report)
    (hcut : report.whole = false) :
    Intact s ((start m.time m.world).follow s moves) number report := by
  obtain ⟨c, hc, hturn⟩ := exists_of_report? hreport
  obtain ⟨past, m₁, current, future, hordered⟩ := ordered_caches s m moves
  obtain ⟨hpast, hholder, hnext, hfree⟩ := handed_on hordered hc hturn
  obtain ⟨since, found, ended, left, log, value, hreturned, hpath⟩ := hordered.turns.exists_path hpast
  rw [hturn, Turn.returned.injEq] at hreturned
  subst hreturned
  have hvalue : value = none := by
    cases value with
    | none => rfl
    | some _ => cases hcut
  subst hvalue
  obtain ⟨hcollect, _, hspan⟩ := hpath.of_limit
  have hcutOff := (Scrape.maintained_refreshed (fun _ _ => id) s.gateway s.target s.scrapers.all
    ⟨since, found⟩).collect s.excluded c.only [] ⟨since, found⟩ log ⟨ended, left⟩ none
    ⟨Nat.le_refl _, fun _ _ => Or.inl rfl⟩ hcollect
  refine ⟨hspan rfl, fun slot d => ?_, ⟨log, rfl, hcutOff⟩, hholder, hnext, hfree⟩
  rcases hcutOff.refreshed.2 slot d with hsame | ⟨e, he, hstart, r, hr, hrefreshes⟩
  · exact Or.inl hsame
  · refine Or.inr ⟨e, he, hstart, r, hr, hrefreshes.later ?_ (Nat.le_refl _)⟩
    exact (List.prefix_append _ _).isInfix

def halved : Service Rehearsal.Stage Nat where
  gateway := Rehearsal.Stage.gateway
  target := ⟨⟨"localhost", 5432, none, "postgres", none, none, .prefer, none, none⟩, "postgres"⟩
  scrapers := {
    global := [.cached 0 60000 (.direct { Service.tardy with delay := 0 }.source),
      .cached 1 60000 (.direct Service.tardy.source)] }
  excluded := []
  timeout := 50

def round (number : Nat) : List (Move Rehearsal.Stage) :=
  .grant :: List.replicate 40 (.scrape number) ++ .pass 50 :: List.replicate 2 (.scrape number)

/-- The first refresh of the two is remembered, the second one is not. -/
theorem intact_of_cut_halved :
    let m : Moment Rehearsal.Stage := ⟨0, ⟨{ script := { version := "16.1" } }, .empty⟩⟩
    let moves := .askScrape [] :: round 0
    let t := (start m.time m.world).follow halved moves
    ∃ report, t.report? 0 = some report ∧ report.whole = false ∧ Intact halved t 0 report ∧
      (report.left.caches.stored? 0 "postgres").isSome ∧
      report.left.caches.stored? 1 "postgres" = none := by
  intro m moves t
  have hreport : (t.report? 0).map (fun report => (report.whole,
      (report.left.caches.stored? 0 "postgres").isSome,
      (report.left.caches.stored? 1 "postgres").isSome)) = some (false, true, false) := by
    decide +kernel
  obtain ⟨report, hreport, hleft⟩ := Option.map_eq_some_iff.mp hreport
  rw [Prod.mk.injEq, Prod.mk.injEq] at hleft
  obtain ⟨hcut, hfirst, hsecond⟩ := hleft
  exact ⟨report, hreport, hcut, intact_of_cut halved m moves hreport hcut, hfirst, by simpa using hsecond⟩

end Traffic
end PgMetrics
