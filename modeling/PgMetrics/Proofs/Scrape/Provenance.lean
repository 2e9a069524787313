import PgMetrics.Proofs.Cache.Pace
import PgMetrics.Proofs.Cache.Refresh
import PgMetrics.Proofs.Service.Discipline

/-! # Where observations come from

Every observation of a segment was pushed by the source of its scraper while that ran on a connection
to the database of the segment: in this very run, or, behind caches, in an earlier one that is not
too old.  An entry of a cache carries the start of its run, so nothing is served for longer than the
times to live of the caches around the source allow.
-/
namespace PgMetrics

open Activity (Path)
open Scrape (Opens)

variable {σ κ γ : Type}

def Log.made (log : Log) : List (Nat × Observation) :=
  log.filterMap fun e => e.2.made?.map (Prod.mk e.1)

theorem Log.made_aside (log : Log) : log.aside.made = log.made := by
  rw [made, aside, List.filterMap_filter, made]
  congr 1
  funext e
  obtain ⟨time, e⟩ := e
  cases e <;> rfl

theorem Log.made_ofSource (made : List (Nat × Observation)) :
    Log.made (made.flatMap fun e => (Event.ofSource e.2).map (Prod.mk e.1)) = made := by
  induction made with
  | nil => rfl
  | cons e rest ih => simpa [Log.made, Event.ofSource, Event.made?] using ih

/-- For how long after its start a run may be served: for the time to live of the cache, and with
several caches around each other, for all of theirs together. -/
def Scraper.lifetime : Scraper σ κ → Nat
  | .direct _ => 0
  | .cached _ ttl inner => ttl + inner.lifetime

def Source.Ran (source : Source σ κ) (g : Gateway σ κ) (target : Target) (database : String)
    (start : Nat) (made : List (Nat × Observation)) : Prop :=
  ∃ handle version found ended left verdict, Opens g target ⟨database, handle⟩ ∧
    Path (fun _ => ()) (source.run ⟨database, handle⟩ version) start found made ended left verdict

section Pushed
variable (g : Gateway σ κ) (target : Target)

/-- In a log that follows another, a run of the source has pushed an observation.  The run was started
at that time on the connection opened last, which was opened for the database. -/
def Pushed (before log : Log) (source : Source σ κ) (database : String) (start : Nat)
    (o : Observation) : Prop :=
  ∃ (pre run post : Log) (number : Nat),
    log = pre ++ (start, .started source.name database start) :: (run ++ post) ∧
      (Event.connections (before ++ pre).events).getLast? = some (number, database) ∧
      (∀ e ∈ run, e.2.ofRun) ∧ source.Ran g target database start run.made ∧
      ∃ time, (time, o) ∈ run.made

end Pushed

namespace Pushed

variable {g : Gateway σ κ} {target : Target} {before log : Log} {source : Source σ κ}
  {database : String} {start : Nat} {o : Observation}

theorem append (h : Pushed g target before log source database start o) (es : Log) :
    Pushed g target before (log ++ es) source database start o := by
  obtain ⟨pre, run, post, number, rfl, hrest⟩ := h
  exact ⟨pre, run, post ++ es, number, by simp, hrest⟩

theorem joined (h : Pushed g target before log source database start o) :
    Pushed g target [] (before ++ log) source database start o := by
  obtain ⟨pre, run, post, number, rfl, hrest⟩ := h
  exact ⟨before ++ pre, run, post, number, by simp, hrest⟩

theorem foldl_connecting_aside (held : List (Nat × String)) (es : List Event) :
    (Event.aside es).foldl Event.connecting held = es.foldl Event.connecting held := by
  induction es generalizing held with
  | nil => rfl
  | cons e rest ih => cases e <;> exact ih _

/-- What is pushed is pushed behind a cache too. -/
theorem aside (h : Pushed g target before log source database start o) :
    Pushed g target before log.aside source database start o := by
  obtain ⟨pre, run, post, number, rfl, hconnection, hrun, hran, hpushed⟩ := h
  refine ⟨pre.aside, run.aside, post.aside, number, ?_, ?_,
    fun e he => hrun e (List.mem_of_mem_filter he), ?_⟩
  · simp only [Log.aside, List.filter_append, List.filter_cons]
    rfl
  · rw [Log.events_append, Event.connections_append] at hconnection ⊢
    rw [Log.events_aside, foldl_connecting_aside]
    exact hconnection
  · rw [Log.made_aside]
    exact ⟨hran, hpushed⟩

end Pushed

section Slots

theorem Scraper.Wraps.mem_slots {s inner : Scraper σ κ} {slot ttl : Nat}
    (h : s.Wraps slot ttl inner) : slot ∈ s.slots := by
  induction h with
  | here => exact List.mem_cons_self
  | inside _ _ _ ih => exact List.mem_cons_of_mem _ ih

theorem Scraper.Wraps.unique {s inner inner' : Scraper σ κ} {slot ttl ttl' : Nat}
    (hs : s.slots.Nodup) (h : s.Wraps slot ttl inner) (h' : s.Wraps slot ttl' inner') :
    inner = inner' := by
  induction h with
  | here =>
    cases h' with
    | here => rfl
    | inside _ _ h' => exact absurd h'.mem_slots (List.nodup_cons.mp hs).1
  | inside _ _ h ih =>
    cases h' with
    | here => exact absurd h.mem_slots (List.nodup_cons.mp hs).1
    | inside _ _ h' => exact ih (List.nodup_cons.mp hs).2 h'

/-- A cache belongs to one scraper only, and is around one scraper only. -/
theorem Scraper.Wraps.owner {scrapers : List (Scraper σ κ)}
    (hslots : (scrapers.flatMap Scraper.slots).Nodup) {r r' inner inner' : Scraper σ κ}
    (hr : r ∈ scrapers) (hr' : r' ∈ scrapers) {slot ttl ttl' : Nat} (h : r.Wraps slot ttl inner)
    (h' : r'.Wraps slot ttl' inner') : r = r' ∧ inner = inner' := by
  have hsame := Scraper.eq_of_mem_slots hslots hr hr' h.mem_slots h'.mem_slots
  subst hsame
  exact ⟨rfl, h.unique ((List.nodup_flatMap.mp hslots).1 r hr) h'⟩

end Slots

/-- All that caches remember is known: it comes from a run of their scraper that was not too old when
the entry was made. -/
def Sourced (scrapers : List (Scraper σ κ)) (cs : Caches)
    (known : Source σ κ → String → Nat → Observation → Prop) : Prop :=
  ∀ r ∈ scrapers, ∀ slot ttl inner, r.Wraps slot ttl inner → ∀ d e, cs.stored? slot d = some e →
    ∀ o ∈ e.observations, ∃ start, known r.source d start o ∧ e.start ≤ start + inner.lifetime

theorem Sourced.mono {scrapers : List (Scraper σ κ)} {cs : Caches}
    {known known' : Source σ κ → String → Nat → Observation → Prop} (h : Sourced scrapers cs known)
    (hknown : ∀ source d start o, known source d start o → known' source d start o) :
    Sourced scrapers cs known' := by
  intro r hr slot ttl inner hwraps d e he o ho
  obtain ⟨start, hstart, hle⟩ := h r hr slot ttl inner hwraps d e he o ho
  exact ⟨start, hknown _ _ _ _ hstart, hle⟩

theorem Scraper.entry_of_fresh? {slot ttl : Nat} {m : Moment σ} {d : String}
    {os : List Observation} (h : fresh? slot ttl m d = some os) :
    ∃ e, m.world.caches.stored? slot d = some e ∧ e.observations = os ∧ m.time ≤ e.start + ttl := by
  unfold fresh? Cache.fresh? at h
  unfold Caches.stored?
  cases he : (m.world.caches.cache slot).get? d with
  | none =>
    rw [he] at h
    cases h
  | some e =>
    simp only [he, CacheEntry.fresh, decide_eq_true_eq] at h
    split at h
    · rename_i hfresh
      cases h
      exact ⟨e, rfl, rfl, by omega⟩
    · cases h

section Run
variable {view : World σ → γ} (hview : ∀ w w', view w = view w' → w.caches = w'.caches)
  {g : Gateway σ κ} {target : Target} {scrapers : List (Scraper σ κ)}
  (hslots : (scrapers.flatMap Scraper.slots).Nodup)
  {r : Scraper σ κ} (hr : r ∈ scrapers) {time time' : Nat} {w w' : World σ} {before es : Log}
  {session : Session κ} {version : Version} {number : Nat} (hopens : Opens g target session)
  (hconnection : (Event.connections before.events).getLast? = some (number, session.database))

include hview hopens hconnection in
theorem Scraper.pushed_of_direct {source : Source σ κ} {v : Option Verdict}
    (h : Path view ((direct source).run session version) time w es time' w' v) :
    ∀ o ∈ Log.results es, Pushed g target before es source session.database time o := by
  obtain ⟨_, made, left, hsource, rfl⟩ := path_direct hview h
  intro o ho
  have hmade : ∃ t, (t, o) ∈ made := by
    obtain ⟨t, ht⟩ := Log.mem_results.mp ho
    rcases List.mem_cons.mp ht with ht | ht
    · cases ht
    · obtain ⟨⟨t', o'⟩, hmem, ht⟩ := List.mem_flatMap.mp ht
      simp only [Event.ofSource, List.map_cons, List.map_nil, List.mem_cons, List.not_mem_nil,
        or_false] at ht
      rcases ht with ht | ht
      · cases ht
      · cases ht
        exact ⟨t, hmem⟩
  refine ⟨[], made.flatMap fun e => (Event.ofSource e.2).map (Prod.mk e.1), [], number, ?_, ?_, ?_,
    ?_⟩
  · rw [List.append_nil, List.nil_append]
  · simpa using hconnection
  · intro e he
    obtain ⟨⟨t', o'⟩, _, he⟩ := List.mem_flatMap.mp he
    simp only [Event.ofSource, List.map_cons, List.map_nil, List.mem_cons, List.not_mem_nil,
      or_false] at he
    rcases he with rfl | rfl <;> rfl
  · rw [Log.made_ofSource]
    exact ⟨⟨session.handle, version, w.server, time', left, v, hopens, hsource⟩, hmade⟩

include hview hslots hr hopens hconnection in
/-- What a run hands on it has pushed itself, or it repeats what a cache remembers. -/
theorem Scraper.sourced_run {s : Scraper σ κ} (hlayers : ∀ slot ttl inner, s.Wraps slot ttl inner →
      r.Wraps slot ttl inner) (hsource : s.source = r.source) {v : Option Verdict}
    (hcaches : Sourced scrapers w.caches (Pushed g target [] before))
    (h : Path view (s.run session version) time w es time' w' v) :
    (∀ o ∈ Log.results es, ∃ start,
      Pushed g target before es r.source session.database start o ∧ start = time ∨
      s.slots ≠ [] ∧ Pushed g target [] before r.source session.database start o ∧ time' = time ∧
        time ≤ start + s.lifetime) ∧
    Sourced scrapers w'.caches fun source d start o =>
      Pushed g target [] before source d start o ∨ Pushed g target before es source d start o := by
  induction s generalizing es w' v with
  | direct source =>
    refine ⟨fun o ho => ⟨time, Or.inl ⟨?_, rfl⟩⟩, ?_⟩
    · rw [← hsource]
      exact pushed_of_direct hview hopens hconnection h o ho
    · rw [← (path_direct hview h).1]
      exact hcaches.mono fun _ _ _ _ => Or.inl
  | cached slot ttl inner ih =>
    have hinner : ∀ slot' ttl' inner', inner.Wraps slot' ttl' inner' → r.Wraps slot' ttl' inner' :=
      fun slot' ttl' inner' hwraps => hlayers _ _ _ (hwraps.inside slot ttl)
    rcases path_cached_cases hview h with ⟨os, hfresh, htime, hsame, rfl, _⟩ |
      ⟨_, made, hcut | hreturned⟩
    · rw [← hsame]
      refine ⟨fun o ho => ?_, hcaches.mono fun _ _ _ _ => Or.inl⟩
      rw [Log.results_observed] at ho
      obtain ⟨e, he, rfl, hage⟩ := entry_of_fresh? hfresh
      obtain ⟨start, hstart, hle⟩ :=
        hcaches r hr slot ttl inner (hlayers _ _ _ (.here _ _ _)) _ e he o ho
      refine ⟨start, Or.inr ⟨by simp [slots], hstart, htime, ?_⟩⟩
      simp only [lifetime] at hage ⊢
      omega
    · obtain ⟨hdropped, rfl, _⟩ := hcut
      rw [← caches_of_dropped hview hdropped]
      refine ⟨fun o ho => ?_, hcaches.mono fun _ _ _ _ => Or.inl⟩
      rw [Log.results_aside] at ho
      cases ho
    · obtain ⟨w₁, verdict, hrun, rfl, hstored, _⟩ := hreturned
      obtain ⟨hresults, hsourced⟩ := ih hinner hsource hrun
      have hbehind : ∀ {source : Source σ κ} {d start o}, Pushed g target before made source d start o →
          Pushed g target before (made.aside ++ (made.results.map Event.observed).map (Prod.mk time'))
            source d start o := fun hpushed => hpushed.aside.append _
      refine ⟨fun o ho => ?_, ?_⟩
      · rw [Log.results_append, Log.results_aside, Log.results_observed, List.nil_append] at ho
        obtain ⟨start, ⟨hpushed, hstart⟩ | ⟨_, hpushed, htime, hle⟩⟩ := hresults o ho
        · exact ⟨start, Or.inl ⟨hbehind hpushed, hstart⟩⟩
        · refine ⟨start, Or.inr ⟨by simp [slots], hpushed, htime, ?_⟩⟩
          simp only [lifetime]
          omega
      · intro r' hr' slot' ttl' inner' hwraps d e he o ho
        rw [hstored, Caches.stored?_store] at he
        by_cases hentry : slot' = slot ∧ d = session.database
        · obtain ⟨rfl, rfl⟩ := hentry
          rw [if_pos ⟨rfl, rfl⟩] at he
          cases he
          obtain ⟨rfl, rfl⟩ := Wraps.owner hslots hr hr' (hlayers _ _ _ (.here _ _ _)) hwraps
          obtain ⟨start, ⟨hpushed, rfl⟩ | ⟨_, hpushed, _, hle⟩⟩ := hresults o ho
          · exact ⟨start, Or.inr (hbehind hpushed), Nat.le_add_right _ _⟩
          · exact ⟨start, Or.inl hpushed, hle⟩
        · rw [if_neg hentry] at he
          obtain ⟨start, hknown, hle⟩ := hsourced r' hr' slot' ttl' inner' hwraps d e he o ho
          exact ⟨start, hknown.imp_right hbehind, hle⟩

end Run

/-- A run leaves connections alone, and the observations that it hands on come from runs of its source
on that database: from this one, or, if there is a cache around it, from an earlier one that was not
too old when they were handed on. -/
structure Provenance (g : Gateway σ κ) (target : Target) (r : Scraper σ κ) (database : String)
    (before run : Log) : Prop where
  silent : ∀ e ∈ run, e.2.ofLine = false
  pushed : ∀ time o, (time, .observed o) ∈ run → ∃ start,
    Pushed g target before run r.source database start o ∨
    r.slots ≠ [] ∧ Pushed g target [] before r.source database start o ∧ time ≤ start + r.lifetime

namespace Scrape

section Attributed
variable (g : Gateway σ κ) (target : Target) (scrapers : List (Scraper σ κ)) (past : Log)

def Runs (log run : Log) (name database : String) : Prop :=
  ∃ r ∈ scrapers, r.name = name ∧
    (∃ number, (Event.connections log.events).getLast? = some (number, database)) ∧
    Provenance g target r database (past ++ log) run

/-- A log is made of what happens to connections, of what a scrape says of itself before anything
else, and of segments: runs of scrapers, each followed by its two reports, which name the database of
the connection. -/
inductive Attributed : Log → Prop where
  | nil : Attributed []
  | line {log : Log} {time : Nat} {e : Event} :
      Attributed log → e.ofLine → Attributed (log ++ [(time, e)])
  | greets {log : Log} {time : Nat} {value : Float} :
      Attributed log → log.results = [] →
      Attributed (log ++ [(time, .observed ⟨.gauge, "postgres_up", [], value,
        "Whether the Postgres server is up."⟩)])
  | informs {log : Log} {time : Nat} {version : String} :
      Attributed log → log.results.map Observation.name = ["postgres_up"] →
      Attributed (log ++ [(time, .observed ⟨.gauge, "postgres_info", [("version", version)], 1,
        "Postgres version and distribution."⟩)])
  | segment {log run : Log} {name database : String} {time : Nat} {duration success : Float} :
      Attributed log → Runs g target scrapers past log run name database →
      Attributed (log ++ (run ++ [
        (time, .observed ⟨.gauge, "postgres_exporter_scraper_duration_seconds",
          [("scraper", name), ("datname", database)], duration,
          "Duration of a scraper run in seconds."⟩),
        (time, .observed ⟨.gauge, "postgres_exporter_scraper_success",
          [("scraper", name), ("datname", database)], success,
          "Whether the scraper run succeeded (1) or failed (0)."⟩)]))

def Truncated (log : Log) : Prop :=
  ∃ done run, log = done ++ run ∧ Attributed g target scrapers past done ∧
    (run = [] ∨ ∃ name database, Runs g target scrapers past done run name database)

end Attributed

theorem getLast?_of_database? {target d : String} {c : Contact} (h : c.database? target = some d) :
    ∃ number, (c.connections target).getLast? = some (number, d) := by
  cases c with
  | home k asked =>
    cases asked with
    | none =>
      cases h
      exact ⟨0, rfl⟩
    | some _ => cases h
  | away k d' =>
    cases h
    exact ⟨k + 1, rfl⟩
  | _ => cases h

section Maintained
variable {view : World σ → γ} {g : Gateway σ κ} {target : Target} {scrapers : List (Scraper σ κ)}
  {past : Log}

/-- A step of a scrape says what it says of itself only as long as no scraper can have run. -/
theorem Attributed.step {c c' : Contact} {log : Log} {time : Nat} {e : Event}
    (h : Attributed g target scrapers past log)
    (hfits : Contact.Fits target.database log.events c) (hstep : c.Step target.database e c') :
    Attributed g target scrapers past (log ++ [(time, e)]) := by
  cases hstep with
  | refused | greets => exact h.greets (hfits.said [] rfl)
  | informs v =>
    have hup : log.results = [up 1] := hfits.said [up 1] rfl
    exact h.informs (by rw [hup]; rfl)
  | _ => exact h.line rfl

structure Sound (g : Gateway σ κ) (target : Target) (scrapers : List (Scraper σ κ)) (past : Log)
    (c : Contact) (log : Log) (m : Moment σ) : Prop where
  steps : Contact.Steps target.database log.events c
  attributed : Attributed g target scrapers past log
  sourced : Sourced scrapers m.world.caches (Pushed g target [] (past ++ log))

theorem maintained_sound (g : Gateway σ κ) (target : Target)
    (hview : ∀ w w', view w = view w' → w.caches = w'.caches)
    (hslots : (scrapers.flatMap Scraper.slots).Nodup)
    (hpast : Event.connections past.events = []) :
    Maintained view g target scrapers (Sound g target scrapers past) fun log m =>
      Truncated g target scrapers past log ∧
        Sourced scrapers m.world.caches (Pushed g target [] (past ++ log)) where
  caches := hview
  weaken {c log m} h :=
    ⟨⟨log, [], (List.append_nil log).symm, h.attributed, Or.inl rfl⟩, h.sourced⟩
  stable h _ hcaches := ⟨h.steps, h.attributed, hcaches ▸ h.sourced⟩
  step h hstep := by
    refine ⟨(maintained_steps hview g target scrapers).step (m := ⟨_, _⟩) h.steps hstep,
      h.attributed.step h.steps.fits hstep, ?_⟩
    rw [← List.append_assoc]
    exact h.sourced.mono fun _ _ _ _ hpushed => hpushed.append _
  segment r hr c session version hc hopens := by
    intro log m es m' v h hpath
    have hsteps := (maintained_steps hview g target scrapers).segment r hr hc hopens log m es m' v
      h.steps hpath
    obtain ⟨number, hlast⟩ := getLast?_of_database? hc
    have hopened : (Event.connections log.events).getLast? = some (number, session.database) :=
      (congrArg List.getLast? h.steps.fits.connections).trans hlast
    have hconnection : (Event.connections (past ++ log).events).getLast? =
        some (number, session.database) := by
      rw [Log.events_append, Event.connections_append, hpast]
      exact hopened
    have hrun : ∀ {run : Log} {w : World σ} {v : Option Verdict},
        Path view (r.run session version) m.time m.world run m'.time w v →
        Runs g target scrapers past log run r.name session.database ∧
          Sourced scrapers w.caches (Pushed g target [] (past ++ (log ++ run))) := by
      intro run w v hpath
      obtain ⟨hresults, hsourced⟩ := Scraper.sourced_run hview hslots hr hopens hconnection
        (fun _ _ _ => id) rfl h.sourced hpath
      have hquiet : Quiet m run ⟨m'.time, w⟩ := quiet_of_run hview hpath
      constructor
      · refine ⟨r, hr, rfl, ⟨number, hopened⟩, hquiet.silent, fun time o ho => ?_⟩
        obtain ⟨start, ⟨hpushed, _⟩ | ⟨hcached, hpushed, htime, hle⟩⟩ :=
          hresults o (Log.mem_results.mpr ⟨time, ho⟩)
        · exact ⟨start, Or.inl hpushed⟩
        · have hmem := (hpath.mem_times _ ho).2
          exact ⟨start, Or.inr ⟨hcached, hpushed, by simp only at hmem; omega⟩⟩
      · refine hsourced.mono fun _ _ _ _ hknown => ?_
        rw [← List.append_assoc]
        rcases hknown with hpushed | hpushed
        · exact hpushed.append run
        · exact hpushed.joined
    rcases path_segment_cases hpath with ⟨rfl, hcut⟩ | ⟨run, w₁, verdict, rfl, hw₁, hreturned, rfl⟩
    · obtain ⟨hruns, hsourced⟩ := hrun hcut
      exact ⟨⟨log, es, rfl, h.attributed, Or.inr ⟨_, _, hruns⟩⟩, hsourced⟩
    · obtain ⟨hruns, hsourced⟩ := hrun hreturned
      refine ⟨hsteps, h.attributed.segment hruns, ?_⟩
      rw [← hview _ _ hw₁]
      refine hsourced.mono fun _ _ _ _ hpushed => ?_
      rw [← List.append_assoc, ← List.append_assoc]
      rw [← List.append_assoc] at hpushed
      exact hpushed.append _

end Maintained
end Scrape

namespace Traffic

open Scrape (Truncated Attributed)

/-- The log of a report is attributed, but for the run in which the scrape was dropped, whose
observations come from its database too, and for the connections that have gone with it. -/
structure Traced (s : Service σ κ) (past : Log) (report : Report σ) : Prop where
  log : ∃ log, report.log = log ++ (Event.held log.events).map (report.ended, .dropped ·) ∧
    Truncated s.gateway s.target s.scrapers.all past log ∧
    (report.whole → Attributed s.gateway s.target s.scrapers.all past log)
  observations : report.observations = Log.results report.log

/-- The scrapes that have returned are traced, each after those before it, and they leave no
connection and no entry of unknown origin. -/
theorem traced_turns {s : Service σ κ} (hslots : (s.scrapers.all.flatMap Scraper.slots).Nodup)
    {time : Nat} {server : σ} {past : List (ScrapeCall σ)} {m₁ : Moment σ}
    (h : Turns World.caches s ⟨time, { server }⟩ past m₁) :
    (∀ number c report, past[number]? = some c → c.turn = .returned report →
      Traced s ((past.take number).flatMap ScrapeCall.log) report) ∧
    Sourced s.scrapers.all m₁.world.caches
      (Pushed s.gateway s.target [] (past.flatMap ScrapeCall.log)) ∧
    Event.connections (Log.events (past.flatMap ScrapeCall.log)) = [] := by
  have hview : ∀ w w' : World σ, w.caches = w'.caches → w.caches = w'.caches := fun _ _ => id
  induction h with
  | nil =>
    refine ⟨by simp, ?_, rfl⟩
    intro r _ slot ttl inner _ d e he
    cases he
  | @snoc past m₁ asked ended only found left log value _ hfound hpath ih =>
    obtain ⟨htraced, hsourced, hconnections⟩ := ih
    have hsame : m₁.world.caches = found.caches := hfound
    have hsound := Scrape.maintained_sound s.gateway s.target hview hslots hconnections
    have hend : Truncated s.gateway s.target s.scrapers.all (past.flatMap ScrapeCall.log) log ∧
        (value.isSome → Attributed s.gateway s.target s.scrapers.all
          (past.flatMap ScrapeCall.log) log) ∧
        Sourced s.scrapers.all left.caches
          (Pushed s.gateway s.target [] (past.flatMap ScrapeCall.log ++ log)) := by
      have hcollect := hsound.collect s.excluded only [] ⟨_, found⟩ log ⟨ended, left⟩ value
        ⟨.nil, .nil, by rw [List.append_nil, ← hsame]; exact hsourced⟩ hpath.of_limit.1
      cases value with
      | none => exact ⟨hcollect.1, by simp, hcollect.2⟩
      | some _ =>
        obtain ⟨c, _, hkept⟩ := hcollect
        exact ⟨(hsound.weaken hkept).1, fun _ => hkept.attributed, hkept.sourced⟩
    obtain ⟨htruncated, hwhole, hsourced'⟩ := hend
    let report : Report σ := .close (max m₁.time asked) found ended left value log
    let call : ScrapeCall σ := ⟨asked, only, .returned report⟩
    have hlog : call.log = log ++ (Event.held log.events).map fun n => (ended, .dropped n) := rfl
    have hall : (past ++ [call]).flatMap ScrapeCall.log =
        past.flatMap ScrapeCall.log ++ log ++
          (Event.held log.events).map fun n => (ended, .dropped n) := by
      rw [List.flatMap_append, List.flatMap_singleton, hlog, List.append_assoc]
    refine ⟨fun number c' report' hc' hturn => ?_, ?_, ?_⟩
    · rcases getElem?_concat_cases hc' with ⟨hlt, hc'⟩ | ⟨hnumber, hc'⟩
      · rw [List.take_append_of_le_length (Nat.le_of_lt hlt)]
        exact htraced number c' report' hc' hturn
      · subst hc'
        rw [Turn.returned.injEq] at hturn
        subst hturn
        rw [hnumber, List.take_left]
        refine ⟨⟨log, rfl, htruncated, hwhole⟩, ?_⟩
        simp [Report.close, Log.results, Log.events, Event.results, List.filterMap_map,
          Function.comp_def, Event.observation?]
    · rw [hall]
      exact hsourced'.mono fun _ _ _ _ hpushed => hpushed.append _
    · have hheld : Event.held call.log.events = [] := by
        rw [hlog, Log.events_append]
        simp [Log.events, Function.comp_def]
      rw [Event.held_eq_connections, List.map_eq_nil_iff] at hheld
      rw [List.flatMap_append, List.flatMap_singleton, Log.events_append, Event.connections_append,
        hconnections]
      exact hheld

/-- Whatever has been asked for before, and whatever has become of it: what a scrape returns comes
from runs on the databases it names, none of them older than the caches around them allow. -/
theorem attributed_of_report (s : Service σ κ)
    (hslots : (s.scrapers.all.flatMap Scraper.slots).Nodup) (time : Nat) (server : σ)
    (moves : List (Move σ)) {number : Nat} {report : Report σ}
    (hreport : ((start time { server }).follow s moves).report? number = some report) :
    Traced s ((((start time { server }).follow s moves).scrapes.take number).flatMap ScrapeCall.log)
      report := by
  obtain ⟨c, hc, hturn⟩ := exists_of_report? hreport
  obtain ⟨past, m₁, current, future, hordered⟩ := ordered_caches s ⟨time, { server }⟩ moves
  have hpast := hordered.getElem?_of_returned hc hturn
  obtain ⟨hlt, _⟩ := List.getElem?_eq_some_iff.mp hpast
  have htake : ((start time { server }).follow s moves).scrapes.take number = past.take number := by
    rw [hordered.scrapes, List.append_assoc, List.take_append_of_le_length (Nat.le_of_lt hlt)]
  rw [htake]
  exact (traced_turns hslots hordered.turns).1 number c report hpast hturn

/-- The second scrape repeats what the first one, which was dropped later, has remembered. -/
theorem attributed_of_report_halved :
    let server : Rehearsal.Stage := { script := { version := "16.1" } }
    let moves := [.askScrape [], .askScrape []] ++ round 0 ++ round 1
    let t := (start 0 { server }).follow halved moves
    ∃ report, t.report? 1 = some report ∧
      report.observations.map Observation.name = ["postgres_up", "postgres_info", "m",
        "postgres_exporter_scraper_duration_seconds", "postgres_exporter_scraper_success"] ∧
      Traced halved ((t.scrapes.take 1).flatMap ScrapeCall.log) report := by
  intro server moves t
  have hnames : (t.report? 1).map (fun report => report.observations.map Observation.name) =
      some ["postgres_up", "postgres_info", "m", "postgres_exporter_scraper_duration_seconds",
        "postgres_exporter_scraper_success"] := by
    decide +kernel
  obtain ⟨report, hreport, hobservations⟩ := Option.map_eq_some_iff.mp hnames
  exact ⟨report, hreport, hobservations,
    attributed_of_report halved (by decide) 0 server moves hreport⟩

end Traffic

namespace Selection

/-- The scrapers of a selection are made of different entries of the catalog. -/
theorem exists_entries (sel : Selection) (wire : Wire σ κ) :
    ∃ es : List ((CatalogEntry × Statistics.Statistic) × Nat), es.Nodup ∧
      (∀ e ∈ es, e ∈ Statistics.numbered) ∧
        (sel.scrapers wire).all = es.map fun e => sel.scraper wire e.1.1 e.1.2 e.2 := by
  let chosen := fun scope : Scope =>
    Statistics.numbered.filter fun e => e.1.1.scope = scope && sel.isEnabled e.1.1.name
  refine ⟨chosen .server ++ chosen .database, ?_, fun e he => ?_, List.map_append.symm⟩
  · have hnumbered : Statistics.numbered.Nodup := List.Nodup.of_map _ nodup_slots
    refine (hnumbered.filter _).append (hnumbered.filter _) fun e hserver hdatabase => ?_
    simp only [chosen, List.mem_filter, Bool.and_eq_true, decide_eq_true_eq] at hserver hdatabase
    rw [hserver.2.1] at hdatabase
    cases hdatabase.2.1
  · rcases List.mem_append.mp he with he | he <;> exact List.mem_of_mem_filter he

/-- No two scrapers of a selection share a cache. -/
theorem nodup_slots_scrapers (sel : Selection) (wire : Wire σ κ) :
    ((sel.scrapers wire).all.flatMap Scraper.slots).Nodup := by
  obtain ⟨es, hentries, hnumbered, hall⟩ := sel.exists_entries wire
  have hslots : (es.map Prod.snd).Nodup :=
    List.Nodup.map_on (fun e he e' he' heq =>
      List.inj_on_of_nodup_map nodup_slots (hnumbered e he) (hnumbered e' he') heq) hentries
  refine List.Nodup.sublist ?_ hslots
  rw [hall]
  clear hall hslots hnumbered hentries
  induction es with
  | nil => exact .slnil
  | cons e rest ih =>
    rw [List.map_cons, List.flatMap_cons, List.map_cons, scraper]
    by_cases hcached : sel.isCached e.1.1.name
    · rw [if_pos hcached]
      exact ih.cons_cons e.2
    · rw [if_neg hcached]
      exact ih.cons e.2

end Selection
end PgMetrics
