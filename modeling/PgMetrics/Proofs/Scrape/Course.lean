import PgMetrics.Proofs.Scraper.Run
import PgMetrics.Scrape

/-! # The course of a scrape

A course says, answer by answer and run by run, what a scrape reports.  Every run adds a segment:
what it pushes, its duration and its success, labelled with its scraper and the database of its
connection.  The global scrapers run on the first connection; each database that can be opened is
walked on one connection of its own, and the first one that cannot be opened ends the walk.

A scrape takes exactly one course, whatever the server, the scrapers and the filter.
-/
namespace PgMetrics.Scrape

variable {σ κ α : Type}

/-- An activity begun at a moment adds observations to the result and comes to a value, which leaves
another moment. -/
structure Yields (a : Activity (World σ) Event α) (m : Moment σ) (os : List Observation) (value : α)
    (m' : Moment σ) : Prop where
  results : Event.results (a.run m.time m.world).events = os
  value : (a.run m.time m.world).value = value
  moment : (a.run m.time m.world).moment = m'

structure Answers (q : Query σ α) (m : Moment σ) (answer : Except Failure α) (m' : Moment σ) :
    Prop where
  answer : (q.run m.time m.world.server).value = answer
  moment : ⟨(q.run m.time m.world.server).time,
    { m.world with server := (q.run m.time m.world.server).state }⟩ = m'

/-- The segments of scrapers that run one after another on one connection.  The success of a run is
1 just if it has returned in order. -/
inductive Segments (session : Session κ) (version : Version) :
    List (Scraper σ κ) → Moment σ → List Observation → Moment σ → Prop where
  | finished (m : Moment σ) : Segments session version [] m [] m
  | ran {s : Scraper σ κ} {rest : List (Scraper σ κ)} {m m₁ m₂ : Moment σ} {span : Nat}
      {pushed os : List Observation} {verdict : Verdict} {value : Float} :
      Yields (s.run session version) m pushed verdict m₁ → m₁.time = m.time + span →
      (verdict = .ok () ∧ value = 1 ∨ (∃ failure, verdict = .error failure) ∧ value = 0) →
      Segments session version rest m₁ os m₂ →
      Segments session version (s :: rest) m
        (pushed ++
          ⟨.gauge, "postgres_exporter_scraper_duration_seconds",
            [("scraper", s.name), ("datname", session.database)],
            (span / 1000).toFloat + (span % 1000 * 1000000).toFloat / 1000000000,
            "Duration of a scraper run in seconds."⟩ ::
          ⟨.gauge, "postgres_exporter_scraper_success",
            [("scraper", s.name), ("datname", session.database)], value,
            "Whether the scraper run succeeded (1) or failed (0)."⟩ :: os) m₂

inductive Visits (g : Gateway σ κ) (target : Target) (version : Version)
    (scrapers : List (Scraper σ κ)) :
    List String → Moment σ → List Observation → Moment σ → Prop where
  | finished (m : Moment σ) : Visits g target version scrapers [] m [] m
  | refused {d : String} {rest : List String} {m m₁ : Moment σ} {failure : Failure} :
      Answers (g.open_ (target.withDatabase d)) m (.error failure) m₁ →
      Visits g target version scrapers (d :: rest) m [] m₁
  | visited {d : String} {rest : List String} {m m₁ m₂ m₃ m₄ : Moment σ} {handle : κ}
      {os os' : List Observation} {farewell : Except Failure Unit} :
      Answers (g.open_ (target.withDatabase d)) m (.ok handle) m₁ →
      Segments ⟨d, handle⟩ version scrapers m₁ os m₂ →
      Answers (g.close handle) m₂ farewell m₃ →
      Visits g target version scrapers rest m₃ os' m₄ →
      Visits g target version scrapers (d :: rest) m (os ++ os') m₄

inductive Reports (g : Gateway σ κ) (target : Target) (set : ScraperSet σ κ)
    (excluded only : List String) (handle : κ) :
    Moment σ → List Observation → Moment σ → Prop where
  | unversioned {m m₁ : Moment σ} {failure : Failure} :
      Answers (g.announcement handle) m (.error failure) m₁ →
      Reports g target set excluded only handle m [] m₁
  | unlisted {m m₁ m₂ : Moment σ} {raw : String} {failure : Failure} :
      Answers (g.announcement handle) m (.ok raw) m₁ →
      Answers (g.databases handle excluded) m₁ (.error failure) m₂ →
      Reports g target set excluded only handle m
        [⟨.gauge, "postgres_info", [("version", (Version.ofAnnouncement raw).text)], 1,
          "Postgres version and distribution."⟩] m₂
  | walked {m m₁ m₂ m₃ m₄ : Moment σ} {raw : String} {databases : List String}
      {os os' : List Observation} :
      Answers (g.announcement handle) m (.ok raw) m₁ →
      Answers (g.databases handle excluded) m₁ (.ok databases) m₂ →
      Segments ⟨target.database, handle⟩ (Version.ofAnnouncement raw)
        (set.global.filter fun s => only = [] ∨ s.baseName ∈ only) m₂ os m₃ →
      Visits g target (Version.ofAnnouncement raw)
        (set.perDatabase.filter fun s => only = [] ∨ s.baseName ∈ only) databases m₃ os' m₄ →
      Reports g target set excluded only handle m
        (⟨.gauge, "postgres_info", [("version", (Version.ofAnnouncement raw).text)], 1,
          "Postgres version and distribution."⟩ :: (os ++ os')) m₄

/-- What a whole scrape reports. -/
inductive Course (g : Gateway σ κ) (target : Target) (set : ScraperSet σ κ)
    (excluded only : List String) : Moment σ → List Observation → Moment σ → Prop where
  | down {m m₁ : Moment σ} {failure : Failure} :
      Answers (g.open_ target) m (.error failure) m₁ →
      Course g target set excluded only m
        [⟨.gauge, "postgres_up", [], 0, "Whether the Postgres server is up."⟩] m₁
  | reached {m m₁ m₂ m₃ : Moment σ} {handle : κ} {os : List Observation}
      {farewell : Except Failure Unit} :
      Answers (g.open_ target) m (.ok handle) m₁ →
      Reports g target set excluded only handle m₁ os m₂ →
      Answers (g.close handle) m₂ farewell m₃ →
      Course g target set excluded only m
        (⟨.gauge, "postgres_up", [], 1, "Whether the Postgres server is up."⟩ :: os) m₃

theorem selected_eq (only : List String) :
    selected only = fun s : Scraper σ κ => decide (only = [] ∨ s.baseName ∈ only) := by
  funext s
  rw [selected, Bool.decide_or]
  cases only with
  | nil => rfl
  | cons name rest => simp

/-- A run with its reports begins segments. -/
theorem Segments.cons {session : Session κ} {version : Version} {s : Scraper σ κ}
    {rest : List (Scraper σ κ)} {m m₁ m₂ : Moment σ} {pushed os : List Observation}
    {verdict : Verdict} (hrun : Yields (s.run session version) m pushed verdict m₁)
    (hrest : Segments session version rest m₁ os m₂) :
    Segments session version (s :: rest) m
      (pushed ++ duration s.name session.database (m₁.time - m.time) ::
        success s.name session.database verdict :: os) m₂ := by
  have hle : m.time ≤ m₁.time := by
    rw [← hrun.moment]
    exact Activity.time_le_run _ _ _
  refine .ran hrun (by omega) ?_ hrest
  cases verdict with
  | ok u => exact Or.inl ⟨rfl, rfl⟩
  | error failure => exact Or.inr ⟨⟨failure, rfl⟩, rfl⟩

/-- The reports of a run are its duration and its success. -/
theorem Segments.uncons {session : Session κ} {version : Version} {s : Scraper σ κ}
    {rest : List (Scraper σ κ)} {m m₂ : Moment σ} {all : List Observation}
    (h : Segments session version (s :: rest) m all m₂) : ∃ pushed os verdict m₁,
      Yields (s.run session version) m pushed verdict m₁ ∧
        Segments session version rest m₁ os m₂ ∧
        all = pushed ++ duration s.name session.database (m₁.time - m.time) ::
          success s.name session.database verdict :: os := by
  cases h with
  | @ran _ _ _ m₁ _ span pushed os verdict value hrun hspan hvalue hrest =>
    refine ⟨pushed, os, verdict, m₁, hrun, hrest, ?_⟩
    obtain rfl : span = m₁.time - m.time := by omega
    rcases hvalue with ⟨rfl, rfl⟩ | ⟨⟨failure, rfl⟩, rfl⟩ <;> rfl

section Yields
variable {β : Type} {m m' : Moment σ} {os : List Observation}

theorem yields_pure {v v' : α} :
    Yields (pure v : Activity (World σ) Event α) m os v' m' ↔ os = [] ∧ v = v' ∧ m = m' := by
  constructor
  · rintro ⟨hos, hv, hm⟩
    exact ⟨hos.symm, hv, hm⟩
  · rintro ⟨rfl, rfl, rfl⟩
    exact ⟨rfl, rfl, rfl⟩

/-- One activity after another adds what both add. -/
theorem yields_bind {a : Activity (World σ) Event α} {next : α → Activity (World σ) Event β}
    {v : β} : Yields (a >>= next) m os v m' ↔ ∃ os₁ x m₁ os₂,
      Yields a m os₁ x m₁ ∧ Yields (next x) m₁ os₂ v m' ∧ os = os₁ ++ os₂ := by
  constructor
  · rintro ⟨hos, hv, hm⟩
    simp only [Activity.run_bind, Event.results_append] at hos hv hm
    exact ⟨_, _, _, _, ⟨rfl, rfl, rfl⟩, ⟨rfl, hv, hm⟩, hos.symm⟩
  · rintro ⟨os₁, x, m₁, os₂, ⟨hos, hv, hm⟩, ⟨hos', hv', hm'⟩, h⟩
    subst hos hv hm hos' hv' hm' h
    exact ⟨by rw [Activity.run_bind, Event.results_append]; rfl,
      by rw [Activity.run_bind]; rfl, by rw [Activity.run_bind]; rfl⟩

theorem yields_emit {e : Event} {v : Unit} :
    Yields (.emit e) m os v m' ↔ os = Event.results [e] ∧ m = m' := by
  constructor
  · rintro ⟨hos, _, hm⟩
    exact ⟨hos.symm, hm⟩
  · rintro ⟨rfl, rfl⟩
    exact ⟨rfl, rfl, rfl⟩

theorem yields_now {time : Nat} :
    Yields Activity.now m os time m' ↔ os = [] ∧ m.time = time ∧ m = m' := by
  constructor
  · rintro ⟨hos, hv, hm⟩
    exact ⟨hos.symm, hv, hm⟩
  · rintro ⟨rfl, rfl, rfl⟩
    exact ⟨rfl, rfl, rfl⟩

theorem yields_asking {q : Query σ α} {answer : Except Failure α} :
    Yields (Scraper.asking q) m os answer m' ↔ os = [] ∧ Answers q m answer m' := by
  constructor
  · rintro ⟨hos, hv, hm⟩
    rw [Scraper.run_asking] at hos hv hm
    exact ⟨hos.symm, hv, hm⟩
  · rintro ⟨rfl, hv, hm⟩
    refine ⟨?_, ?_, ?_⟩ <;> rw [Scraper.run_asking]
    · rfl
    · exact hv
    · exact hm

end Yields

section Parts
variable {m m' : Moment σ} {os : List Observation} {u : Unit}

/-- A run is reported with its duration and its success. -/
theorem yields_segment {s : Scraper σ κ} {session : Session κ} {version : Version} :
    Yields (segment s session version) m os u m' ↔ ∃ pushed verdict,
      Yields (s.run session version) m pushed verdict m' ∧
        os = pushed ++ [duration s.name session.database (m'.time - m.time),
          success s.name session.database verdict] := by
  rw [segment, yields_bind]
  constructor
  · rintro ⟨_, _, _, _, hstart, hrest, rfl⟩
    obtain ⟨rfl, rfl, rfl⟩ := yields_now.mp hstart
    obtain ⟨pushed, verdict, m₁, _, hrun, hreport, rfl⟩ := yields_bind.mp hrest
    obtain ⟨_, _, _, _, hstop, hemits, rfl⟩ := yields_bind.mp hreport
    obtain ⟨rfl, rfl, rfl⟩ := yields_now.mp hstop
    obtain ⟨_, _, _, _, hduration, hsuccess, rfl⟩ := yields_bind.mp hemits
    obtain ⟨rfl, rfl⟩ := yields_emit.mp hduration
    obtain ⟨rfl, rfl⟩ := yields_emit.mp hsuccess
    exact ⟨pushed, verdict, hrun, rfl⟩
  · rintro ⟨pushed, verdict, hrun, rfl⟩
    refine ⟨[], m.time, m, _, yields_now.mpr ⟨rfl, rfl, rfl⟩, ?_, rfl⟩
    refine yields_bind.mpr ⟨pushed, verdict, m', _, hrun, ?_, rfl⟩
    refine yields_bind.mpr ⟨[], m'.time, m', _, yields_now.mpr ⟨rfl, rfl, rfl⟩, ?_, rfl⟩
    exact yields_bind.mpr ⟨_, (), m', _, yields_emit.mpr ⟨rfl, rfl⟩, yields_emit.mpr ⟨rfl, rfl⟩, rfl⟩

theorem yields_segments {session : Session κ} {version : Version} {ss : List (Scraper σ κ)} :
    Yields (segments session version ss) m os u m' ↔ Segments session version ss m os m' := by
  induction ss generalizing m os with
  | nil =>
    rw [segments, yields_pure]
    constructor
    · rintro ⟨rfl, _, rfl⟩
      exact .finished m
    · intro h
      cases h
      exact ⟨rfl, rfl, rfl⟩
  | cons s rest ih =>
    rw [segments, yields_bind]
    constructor
    · rintro ⟨_, _, m₁, os', hs, hrest, rfl⟩
      obtain ⟨pushed, verdict, hrun, rfl⟩ := yields_segment.mp hs
      rw [List.append_assoc]
      exact .cons hrun (ih.mp hrest)
    · intro h
      obtain ⟨pushed, os', verdict, m₁, hrun, hrest, rfl⟩ := h.uncons
      refine ⟨_, (), m₁, os', yields_segment.mpr ⟨pushed, verdict, hrun, rfl⟩, ih.mpr hrest, ?_⟩
      rw [List.append_assoc]
      rfl

/-- Giving a connection back reports nothing. -/
theorem yields_close {g : Gateway σ κ} {number : Nat} {session : Session κ} :
    Yields (close g number session) m os u m' ↔
      os = [] ∧ ∃ farewell, Answers (g.close session.handle) m farewell m' := by
  rw [close, yields_bind]
  constructor
  · rintro ⟨_, _, _, _, hclosed, hrest, rfl⟩
    obtain ⟨rfl, rfl⟩ := yields_emit.mp hclosed
    obtain ⟨_, farewell, _, _, hasked, hend, rfl⟩ := yields_bind.mp hrest
    obtain ⟨rfl, h⟩ := yields_asking.mp hasked
    obtain ⟨rfl, _, rfl⟩ := yields_pure.mp hend
    exact ⟨rfl, farewell, h⟩
  · rintro ⟨rfl, farewell, h⟩
    refine ⟨[], (), m, [], yields_emit.mpr ⟨rfl, rfl⟩, ?_, rfl⟩
    exact yields_bind.mpr ⟨[], farewell, m', [], yields_asking.mpr ⟨rfl, h⟩,
      yields_pure.mpr ⟨rfl, rfl, rfl⟩, rfl⟩

/-- A session is a handle with the database it was opened for. -/
theorem answers_connect {g : Gateway σ κ} {target : Target} {r : Except Failure (Session κ)} :
    Answers (g.connect target) m r m' ↔ ∃ answer, Answers (g.open_ target) m answer m' ∧
      r = answer.map (Session.mk target.database) := by
  have hrun : (g.connect target).run m.time m.world.server =
      let o := (g.open_ target).run m.time m.world.server
      ⟨o.time, o.state, o.events, o.value.map (Session.mk target.database)⟩ := by
    rw [Gateway.connect, Activity.run_bind]
    cases h : ((g.open_ target).run m.time m.world.server).value <;> simp [h, Except.map]
  constructor
  · rintro ⟨hv, hm⟩
    rw [hrun] at hv hm
    exact ⟨_, ⟨rfl, hm⟩, hv.symm⟩
  · rintro ⟨answer, ⟨hv, hm⟩, rfl⟩
    subst hv
    exact ⟨by rw [hrun], by rw [hrun]; exact hm⟩

theorem yields_connect {g : Gateway σ κ} {number : Nat} {target : Target}
    {r : Except Failure (Session κ)} :
    Yields (connect g number target) m os r m' ↔ os = [] ∧ ∃ answer,
      Answers (g.open_ target) m answer m' ∧ r = answer.map (Session.mk target.database) := by
  rw [connect, yields_bind]
  constructor
  · rintro ⟨_, _, _, _, hrequest, hasking, rfl⟩
    obtain ⟨rfl, rfl⟩ := yields_emit.mp hrequest
    obtain ⟨_, _, m₁, _, hasked, hrest, rfl⟩ := yields_bind.mp hasking
    obtain ⟨rfl, hanswer⟩ := yields_asking.mp hasked
    obtain ⟨answer, hopen, rfl⟩ := answers_connect.mp hanswer
    cases answer with
    | error failure =>
      obtain ⟨rfl, rfl, rfl⟩ := yields_pure.mp hrest
      exact ⟨rfl, _, hopen, rfl⟩
    | ok handle =>
      obtain ⟨_, _, _, _, hopened, hret, rfl⟩ := yields_bind.mp hrest
      obtain ⟨rfl, rfl⟩ := yields_emit.mp hopened
      obtain ⟨rfl, rfl, rfl⟩ := yields_pure.mp hret
      exact ⟨rfl, _, hopen, rfl⟩
  · rintro ⟨rfl, answer, hopen, rfl⟩
    have hanswer := (answers_connect (g := g)).mpr ⟨answer, hopen, rfl⟩
    refine ⟨[], (), m, [], yields_emit.mpr ⟨rfl, rfl⟩, ?_, rfl⟩
    refine yields_bind.mpr ⟨[], _, m', [], yields_asking.mpr ⟨rfl, hanswer⟩, ?_, rfl⟩
    cases answer with
    | error failure => exact yields_pure.mpr ⟨rfl, rfl, rfl⟩
    | ok handle =>
      exact yields_bind.mpr ⟨[], (), m', [], yields_emit.mpr ⟨rfl, rfl⟩,
        yields_pure.mpr ⟨rfl, rfl, rfl⟩, rfl⟩

theorem yields_walk {g : Gateway σ κ} {target : Target} {version : Version}
    {scrapers : List (Scraper σ κ)} {number : Nat} {databases : List String} :
    Yields (walk g target version scrapers number databases) m os u m' ↔
      Visits g target version scrapers databases m os m' := by
  induction databases generalizing number m os with
  | nil =>
    rw [walk, yields_pure]
    constructor
    · rintro ⟨rfl, _, rfl⟩
      exact .finished m
    · intro h
      cases h
      exact ⟨rfl, rfl, rfl⟩
  | cons d rest ih =>
    rw [walk, yields_bind]
    constructor
    · rintro ⟨_, r, m₁, os', hconnect, hrest, rfl⟩
      obtain ⟨rfl, answer, hopen, rfl⟩ := yields_connect.mp hconnect
      cases answer with
      | error failure =>
        obtain ⟨rfl, _, rfl⟩ := yields_pure.mp hrest
        exact .refused hopen
      | ok handle =>
        obtain ⟨os₁, _, m₂, _, hsegments, hafter, rfl⟩ := yields_bind.mp hrest
        obtain ⟨_, _, m₃, os₂, hclose, hwalk, rfl⟩ := yields_bind.mp hafter
        obtain ⟨rfl, farewell, hclose⟩ := yields_close.mp hclose
        simp only [List.nil_append]
        exact .visited hopen (yields_segments.mp hsegments) hclose (ih.mp hwalk)
    · intro h
      cases h with
      | refused hopen =>
        exact ⟨[], _, m', [], yields_connect.mpr ⟨rfl, _, hopen, rfl⟩,
          yields_pure.mpr ⟨rfl, rfl, rfl⟩, rfl⟩
      | @visited _ _ _ m₁ m₂ m₃ _ handle os₁ os₂ farewell hopen hsegments hclose hrest =>
        refine ⟨[], _, m₁, os₁ ++ os₂, yields_connect.mpr ⟨rfl, _, hopen, rfl⟩, ?_, rfl⟩
        refine yields_bind.mpr ⟨os₁, (), m₂, os₂, yields_segments.mpr hsegments, ?_, rfl⟩
        exact yields_bind.mpr ⟨[], (), m₃, os₂, yields_close.mpr ⟨rfl, farewell, hclose⟩,
          ih.mpr hrest, rfl⟩

theorem yields_onServer {g : Gateway σ κ} {target : Target} {set : ScraperSet σ κ}
    {excluded only : List String} {handle : κ} :
    Yields (onServer g target set excluded only ⟨target.database, handle⟩) m os u m' ↔
      Reports g target set excluded only handle m os m' := by
  rw [onServer, selected_eq, yields_bind]
  constructor
  · rintro ⟨_, answer, m₁, os', hasked, hrest, rfl⟩
    obtain ⟨rfl, hversion⟩ := yields_asking.mp hasked
    cases answer with
    | error failure =>
      obtain ⟨rfl, _, rfl⟩ := yields_pure.mp hrest
      exact .unversioned hversion
    | ok raw =>
      obtain ⟨_, _, _, _, hinfo, hlisting, rfl⟩ := yields_bind.mp hrest
      obtain ⟨rfl, rfl⟩ := yields_emit.mp hinfo
      obtain ⟨_, answer, m₂, _, hasked, hruns, rfl⟩ := yields_bind.mp hlisting
      obtain ⟨rfl, hlist⟩ := yields_asking.mp hasked
      cases answer with
      | error failure =>
        obtain ⟨rfl, _, rfl⟩ := yields_pure.mp hruns
        exact .unlisted hversion hlist
      | ok databases =>
        obtain ⟨os₁, _, m₃, os₂, hsegments, hwalk, rfl⟩ := yields_bind.mp hruns
        change Reports g target set excluded only handle m
          (info (Version.ofAnnouncement raw) :: (os₁ ++ os₂)) m'
        exact .walked hversion hlist (yields_segments.mp hsegments) (yields_walk.mp hwalk)
  · intro h
    cases h with
    | unversioned hversion =>
      exact ⟨[], _, m', [], yields_asking.mpr ⟨rfl, hversion⟩, yields_pure.mpr ⟨rfl, rfl, rfl⟩, rfl⟩
    | @unlisted m₁ _ raw failure hversion hlist =>
      refine ⟨[], _, m₁, _, yields_asking.mpr ⟨rfl, hversion⟩, ?_, rfl⟩
      refine yields_bind.mpr ⟨_, (), m₁, [], yields_emit.mpr ⟨rfl, rfl⟩, ?_, rfl⟩
      exact yields_bind.mpr ⟨[], _, m', [], yields_asking.mpr ⟨rfl, hlist⟩,
        yields_pure.mpr ⟨rfl, rfl, rfl⟩, rfl⟩
    | @walked m₁ m₂ m₃ _ raw databases os₁ os₂ hversion hlist hsegments hwalk =>
      refine ⟨[], _, m₁, _, yields_asking.mpr ⟨rfl, hversion⟩, ?_, rfl⟩
      refine yields_bind.mpr ⟨_, (), m₁, os₁ ++ os₂, yields_emit.mpr ⟨rfl, rfl⟩, ?_, rfl⟩
      refine yields_bind.mpr ⟨[], _, m₂, os₁ ++ os₂, yields_asking.mpr ⟨rfl, hlist⟩, ?_, rfl⟩
      exact yields_bind.mpr ⟨os₁, (), m₃, os₂, yields_segments.mpr hsegments,
        yields_walk.mpr hwalk, rfl⟩

theorem yields_collect {g : Gateway σ κ} {target : Target} {set : ScraperSet σ κ}
    {excluded only : List String} :
    Yields (collect g target set excluded only) m os () m' ↔
      Course g target set excluded only m os m' := by
  rw [collect, yields_bind]
  constructor
  · rintro ⟨_, r, m₁, os', hconnect, hrest, rfl⟩
    obtain ⟨rfl, answer, hopen, rfl⟩ := yields_connect.mp hconnect
    cases answer with
    | error failure =>
      obtain ⟨rfl, rfl⟩ := yields_emit.mp hrest
      exact .down hopen
    | ok handle =>
      obtain ⟨_, _, _, _, hup, hafter, rfl⟩ := yields_bind.mp hrest
      obtain ⟨rfl, rfl⟩ := yields_emit.mp hup
      obtain ⟨os₁, _, m₂, _, hreports, hclose, rfl⟩ := yields_bind.mp hafter
      obtain ⟨rfl, farewell, hclose⟩ := yields_close.mp hclose
      rw [List.append_nil]
      exact .reached hopen (yields_onServer.mp hreports) hclose
  · intro h
    cases h with
    | down hopen =>
      exact ⟨[], _, m', _, yields_connect.mpr ⟨rfl, _, hopen, rfl⟩,
        yields_emit.mpr ⟨rfl, rfl⟩, rfl⟩
    | @reached m₁ m₂ _ handle os₁ farewell hopen hreports hclose =>
      refine ⟨[], _, m₁, _, yields_connect.mpr ⟨rfl, _, hopen, rfl⟩, ?_, rfl⟩
      refine yields_bind.mpr ⟨_, (), m₁, os₁, yields_emit.mpr ⟨rfl, rfl⟩, ?_, rfl⟩
      exact yields_bind.mpr ⟨os₁, (), m₂, [], yields_onServer.mpr hreports,
        yields_close.mpr ⟨rfl, farewell, hclose⟩, (List.append_nil os₁).symm⟩

end Parts

/-- What a scrape reports is what its course says, and it takes that one only. -/
theorem course_iff (g : Gateway σ κ) (target : Target) (set : ScraperSet σ κ)
    (excluded only : List String) (m : Moment σ) (os : List Observation) (m' : Moment σ) :
    Course g target set excluded only m os m' ↔
      Event.results ((collect g target set excluded only).run m.time m.world).events = os ∧
        ((collect g target set excluded only).run m.time m.world).moment = m' := by
  rw [← yields_collect]
  constructor
  · rintro ⟨hos, _, hm⟩
    exact ⟨hos, hm⟩
  · rintro ⟨hos, hm⟩
    exact ⟨hos, rfl, hm⟩

end PgMetrics.Scrape
