import PgMetrics.Proofs.Scrape.Contents
import PgMetrics.Proofs.Scrape.Course
import PgMetrics.Proofs.Scraper.Limited

/-! # What only one scraper makes

Suppose that everything in a result has a property, apart from what one scraper makes and what is
reported of its runs.  Caches of other scrapers then remember only what has the property, and in a
scrape that reports the run of that scraper everything has it before and after this run: what lacks
the property is what this very run has pushed.
-/
namespace PgMetrics

variable {σ κ : Type} {P : Observation → Prop}

namespace Scrape

/-- A property of everything in results apart from what one of the scrapers for the server makes. -/
structure Exclusive (set : ScraperSet σ κ) (r : Scraper σ κ) (P : Observation → Prop) : Prop where
  member : r ∈ set.global
  names : (set.all.map Scraper.name).Nodup
  slots : (set.all.flatMap Scraper.slots).Nodup
  makes : ∀ s ∈ set.all, s.name ≠ r.name → s.source.Makes P
  up : ∀ value, P (up value)
  info : ∀ v, P (info v)
  duration : ∀ name database span, name ≠ r.name → P (duration name database span)
  success : ∀ name database verdict, name ≠ r.name → P (success name database verdict)
  reported : ∀ database verdict, ¬ P (Scrape.success r.name database verdict)

/-- A scrape begun at a moment comes to run one of the scrapers for the server: the run is on that
session and for that version, and it begins at the other moment. -/
inductive Begins (g : Gateway σ κ) (target : Target) (set : ScraperSet σ κ)
    (excluded only : List String) (r : Scraper σ κ) :
    Moment σ → Session κ → Version → Moment σ → Prop where
  | reached {m m₁ m₂ m₃ m₄ : Moment σ} {handle : κ} {raw : String} {databases : List String}
      {earlier later : List (Scraper σ κ)} {os : List Observation} :
      Answers (g.open_ target) m (.ok handle) m₁ →
      Answers (g.announcement handle) m₁ (.ok raw) m₂ →
      Answers (g.databases handle excluded) m₂ (.ok databases) m₃ →
      set.global.filter (selected only) = earlier ++ r :: later →
      Segments ⟨target.database, handle⟩ (Version.ofAnnouncement raw) earlier m₃ os m₄ →
      Begins g target set excluded only r m ⟨target.database, handle⟩
        (Version.ofAnnouncement raw) m₄

theorem Begins.mem {g : Gateway σ κ} {target : Target} {set : ScraperSet σ κ}
    {excluded only : List String} {r : Scraper σ κ} {m m₀ : Moment σ} {session : Session κ}
    {version : Version} (h : Begins g target set excluded only r m session version m₀) :
    r ∈ set.global := by
  cases h with
  | reached _ _ _ hselected _ =>
    have hmem : r ∈ set.global.filter (selected only) := by
      rw [hselected]
      exact List.mem_append_right _ List.mem_cons_self
    exact List.mem_of_mem_filter hmem

theorem Answers.caches {α : Type} {q : Query σ α} {m m' : Moment σ} {answer : Except Failure α}
    (h : Answers q m answer m') : m'.world.caches = m.world.caches := by
  rw [← h.moment]

theorem exists_segments (session : Session κ) (version : Version) (ss : List (Scraper σ κ))
    (m : Moment σ) : ∃ os m', Segments session version ss m os m' :=
  ⟨_, _, yields_segments.mp ⟨rfl, rfl, rfl⟩⟩

theorem exists_visits (g : Gateway σ κ) (target : Target) (version : Version)
    (ss : List (Scraper σ κ)) (databases : List String) (m : Moment σ) :
    ∃ os m', Visits g target version ss databases m os m' := by
  have hwalk : Yields (walk g target version ss 1 databases) m _ _ _ := ⟨rfl, rfl, rfl⟩
  exact ⟨_, _, yields_walk.mp hwalk⟩

theorem Segments.append {session : Session κ} {version : Version} {ss ss' : List (Scraper σ κ)}
    {m m₁ m₂ : Moment σ} {os os' : List Observation} (h : Segments session version ss m os m₁)
    (h' : Segments session version ss' m₁ os' m₂) :
    Segments session version (ss ++ ss') m (os ++ os') m₂ := by
  induction h with
  | finished m => exact h'
  | ran hrun hspan hvalue _ ih =>
    rw [List.append_assoc]
    exact .ran hrun hspan hvalue (ih h')

end Scrape

theorem Scraper.holdIn_yields {slots : Nat → Prop} {s : Scraper σ κ}
    (hslots : ∀ k ∈ s.slots, slots k) (hmakes : s.source.Makes P) {session : Session κ}
    {version : Version} {m m' : Moment σ} {os : List Observation} {verdict : Verdict}
    (hcaches : m.world.caches.HoldIn slots P)
    (h : Scrape.Yields (s.run session version) m os verdict m') :
    m'.world.caches.HoldIn slots P ∧ ∀ o ∈ os, P o := by
  obtain ⟨span, hrun⟩ := (s.run session version).exists_run_limit m.time m.world
  have hkept := s.holdIn_run_limit hslots session version span m hcaches
    (s.pushes_run_limit hmakes session version span m)
  rw [hrun] at hkept
  rw [← h.moment, ← h.results]
  exact hkept

namespace Scrape.Exclusive

variable {set : ScraperSet σ κ} {r : Scraper σ κ} (h : Exclusive set r P)

include h

theorem foreign_slots {s : Scraper σ κ} (hs : s ∈ set.all) (hname : s.name ≠ r.name) :
    ∀ k ∈ s.slots, k ∉ r.slots := by
  intro k hk hk'
  have hr : r ∈ set.all := List.mem_append_left _ h.member
  exact hname (congrArg Scraper.name (Scraper.eq_of_mem_slots h.slots hs hr hk hk'))

theorem eq_of_name {s : Scraper σ κ} (hs : s ∈ set.all) (hname : s.name = r.name) : s = r :=
  List.inj_on_of_nodup_map h.names hs (List.mem_append_left _ h.member) hname

/-- The other scrapers that a scrape runs. -/
theorem ne_of_selected {only : List String} {earlier later : List (Scraper σ κ)}
    (hselected : set.global.filter (selected only) = earlier ++ r :: later) :
    (∀ s ∈ earlier ++ later, s ∈ set.all ∧ s.name ≠ r.name) ∧
      ∀ s ∈ set.perDatabase.filter (selected only), s ∈ set.all ∧ s.name ≠ r.name := by
  have hnames := h.names
  rw [ScraperSet.all, List.map_append, List.nodup_append] at hnames
  have hglobal : (earlier ++ r :: later).Sublist set.global := hselected ▸ List.filter_sublist
  have hr : r.name ∈ set.global.map Scraper.name := List.mem_map_of_mem h.member
  have hothers : r.name ∉ (earlier ++ later).map Scraper.name := by
    have hnodup := hnames.1.sublist (hglobal.map Scraper.name)
    rw [List.map_append, List.map_cons, List.nodup_middle, List.nodup_cons] at hnodup
    rw [List.map_append]
    exact hnodup.1
  refine ⟨fun s hs => ⟨?_, ?_⟩, fun s hs => ⟨?_, ?_⟩⟩
  · refine List.mem_append_left _ (hglobal.mem ?_)
    rw [List.mem_append, List.mem_cons]
    exact (List.mem_append.mp hs).imp_right Or.inr
  · exact fun hname => hothers (hname ▸ List.mem_map_of_mem hs)
  · exact List.mem_append_right _ (List.mem_of_mem_filter hs)
  · exact (hnames.2.2 _ hr _ (List.mem_map_of_mem (List.mem_of_mem_filter hs))).symm

section Run
variable {session : Session κ} {version : Version} {m m' : Moment σ} {os : List Observation}
  (hcaches : m.world.caches.HoldIn (· ∉ r.slots) P)

include hcaches

theorem all_of_segments {ss : List (Scraper σ κ)} (hss : ∀ s ∈ ss, s ∈ set.all ∧ s.name ≠ r.name)
    (hsegments : Segments session version ss m os m') :
    m'.world.caches.HoldIn (· ∉ r.slots) P ∧ ∀ o ∈ os, P o := by
  induction ss generalizing m os with
  | nil =>
    cases hsegments with
    | finished => exact ⟨hcaches, fun o ho => absurd ho List.not_mem_nil⟩
  | cons s rest ih =>
    obtain ⟨pushed, os, verdict, m₁, hrun, hlater, rfl⟩ := hsegments.uncons
    obtain ⟨⟨hs, hname⟩, hrest⟩ := List.forall_mem_cons.mp hss
    obtain ⟨hcaches₁, hpushed⟩ := Scraper.holdIn_yields (h.foreign_slots hs hname)
      (h.makes s hs hname) hcaches hrun
    obtain ⟨hcaches₂, hos⟩ := ih hcaches₁ hrest hlater
    refine ⟨hcaches₂, List.forall_mem_append.mpr ⟨hpushed, ?_⟩⟩
    exact List.forall_mem_cons.mpr ⟨h.duration _ _ _ hname,
      List.forall_mem_cons.mpr ⟨h.success _ _ _ hname, hos⟩⟩

theorem all_of_visits {g : Gateway σ κ} {target : Target} {ss : List (Scraper σ κ)}
    {databases : List String} (hss : ∀ s ∈ ss, s ∈ set.all ∧ s.name ≠ r.name)
    (hvisits : Visits g target version ss databases m os m') : ∀ o ∈ os, P o := by
  induction hvisits with
  | finished m => exact fun o ho => absurd ho List.not_mem_nil
  | refused => exact fun o ho => absurd ho List.not_mem_nil
  | visited hopen hsegments hclose _ ih =>
    obtain ⟨hafter, hos⟩ := h.all_of_segments (hopen.caches ▸ hcaches) hss hsegments
    exact List.forall_mem_append.mpr ⟨hos, ih (hclose.caches ▸ hafter)⟩

omit hcaches in
/-- The scraper itself only changes caches of its own. -/
theorem holdIn_run_limit {s : Scraper σ κ} (hs : s ∈ set.all) (session : Session κ)
    (version : Version) (span : Nat) (m : Moment σ)
    (hcaches : m.world.caches.HoldIn (· ∉ r.slots) P) :
    (((s.run session version).limit span).run m.time m.world).state.caches.HoldIn
      (· ∉ r.slots) P := by
  by_cases hname : s.name = r.name
  · rw [h.eq_of_name hs hname]
    intro slot hslot d e he
    rw [r.cache_run_limit hslot] at he
    exact hcaches slot hslot d e he
  · exact (s.holdIn_run_limit (h.foreign_slots hs hname) session version span m hcaches
      (s.pushes_run_limit (h.makes s hs hname) session version span m)).1

theorem holdIn_yields {s : Scraper σ κ} (hs : s ∈ set.all) {verdict : Verdict}
    (hrun : Yields (s.run session version) m os verdict m') :
    m'.world.caches.HoldIn (· ∉ r.slots) P := by
  obtain ⟨span, hlimit⟩ := (s.run session version).exists_run_limit m.time m.world
  have hkept := h.holdIn_run_limit hs session version span m hcaches
  rw [hlimit] at hkept
  rw [← hrun.moment]
  exact hkept

omit hcaches in
theorem invariant_holdIn : Invariant set.all
    (fun _ m => m.world.caches.HoldIn (· ∉ r.slots) P)
    (fun _ m => m.world.caches.HoldIn (· ∉ r.slots) P) where
  weaken := id
  asked hcaches hsame := hsame ▸ hcaches
  reported _ := id
  requested _ := id
  opened _ _ _ := id
  closed _ _ := id
  segment s hs session version := by
    refine keeps_segment (fun _ _ => id) ?_ (fun _ _ _ => id) fun _ _ _ => id
    intro span _ m hcaches
    have hafter := h.holdIn_run_limit hs session version span m hcaches
    exact ⟨hafter, fun _ _ => hafter⟩

end Run

/-- What a whole scrape reports that comes to the scraper. -/
theorem exists_results {g : Gateway σ κ} {target : Target} {excluded only : List String}
    {m m₀ m₁ : Moment σ} {session : Session κ} {version : Version} {pushed : List Observation}
    {verdict : Verdict} (hcaches : m.world.caches.HoldIn (· ∉ r.slots) P)
    (hbegins : Begins g target set excluded only r m session version m₀)
    (hrun : Yields (r.run session version) m₀ pushed verdict m₁) :
    ∃ before after, Event.results
        ((collect g target set excluded only).run m.time m.world).events =
          before ++ (pushed ++ Scrape.duration r.name session.database (m₁.time - m₀.time) ::
            Scrape.success r.name session.database verdict :: after) ∧
      (∀ o ∈ before, P o) ∧ ∀ o ∈ after, P o := by
  cases hbegins with
  | @reached m₂ m₃ m₄ _ handle raw databases earlier later os hopen hversion hlist hselected
      hearlier =>
    obtain ⟨hothers, hlast⟩ := h.ne_of_selected hselected
    obtain ⟨os', m₅, hlater⟩ := exists_segments ⟨target.database, handle⟩
      (Version.ofAnnouncement raw) later m₁
    obtain ⟨os'', m₆, hvisits⟩ := exists_visits g target (Version.ofAnnouncement raw)
      (set.perDatabase.filter (selected only)) databases m₅
    have hsegments := hearlier.append (.cons hrun hlater)
    have hwalk := hvisits
    rw [← hselected, selected_eq] at hsegments
    rw [selected_eq] at hwalk
    have hcourse := Course.reached hopen (.walked hversion hlist hsegments hwalk) ⟨rfl, rfl⟩
    change Course g target set excluded only m
      (Scrape.up 1 :: Scrape.info (Version.ofAnnouncement raw) :: _) _ at hcourse
    have hcaches₄ : m₄.world.caches.HoldIn (· ∉ r.slots) P := by
      rw [hlist.caches, hversion.caches, hopen.caches]
      exact hcaches
    obtain ⟨hcaches₀, hos⟩ := h.all_of_segments hcaches₄
      (fun s hs => hothers s (List.mem_append_left _ hs)) hearlier
    have hcaches₁ := h.holdIn_yields hcaches₀ (List.mem_append_left _ h.member) hrun
    obtain ⟨hcaches₅, hos'⟩ := h.all_of_segments hcaches₁
      (fun s hs => hothers s (List.mem_append_right _ hs)) hlater
    refine ⟨Scrape.up 1 :: Scrape.info (Version.ofAnnouncement raw) :: os, os' ++ os'', ?_, ?_, ?_⟩
    · refine (yields_collect.mpr hcourse).results.trans ?_
      simp only [List.append_assoc, List.cons_append]
    · exact List.forall_mem_cons.mpr ⟨h.up 1, List.forall_mem_cons.mpr ⟨h.info _, hos⟩⟩
    · exact List.forall_mem_append.mpr ⟨hos', h.all_of_visits hcaches₅ hlast hvisits⟩

end Scrape.Exclusive

/-- A beginning of a list that has what is not in the front goes beyond it. -/
theorem exists_of_prefix {α : Type} {front back as : List α} {x y : α}
    (h : as <+: front ++ x :: back) (hy : y ∉ front) (hmem : y ∈ as) :
    ∃ rest, rest <+: back ∧ as = front ++ x :: rest := by
  rcases List.prefix_or_prefix_of_prefix h (List.prefix_append front _) with hshort | ⟨t, rfl⟩
  · exact absurd (hshort.mem hmem) hy
  · rw [List.prefix_append_right_inj] at h
    cases t with
    | nil => exact absurd (by simpa using hmem) hy
    | cons x' rest =>
      obtain ⟨rfl, hrest⟩ := List.cons_prefix_cons.mp h
      exact ⟨rest, hrest, rfl⟩

namespace Service

variable {s : Service σ κ} {r : Scraper σ κ} (h : Scrape.Exclusive s.scrapers r P)

include h

/-- Only its own caches ever remember what lacks the property. -/
theorem holdIn_reached (ops : List (Operation σ)) {m : Moment σ}
    (hm : m.world.caches.HoldIn (· ∉ r.slots) P) :
    (s.reached ops m).world.caches.HoldIn (· ∉ r.slots) P := by
  refine @history_keeps _ _ s (fun _ m => m.world.caches.HoldIn (· ∉ r.slots) P) ?_ ?_ ops [] m hm
  · intro log m m' es hm _ hcaches
    rwa [hcaches]
  · intro only log m hm
    rw [run_scrape]
    exact (h.invariant_holdIn.collect (fun _ _ => id) (fun _ _ _ => id) (fun _ _ => id) s.gateway
      s.excluded only s.timeout [] m hm).1

/-- A scrape that reports the run of the scraper has all that this run has pushed. -/
theorem exists_sink {only : List String} {m m₀ m₁ : Moment σ} {session : Session κ}
    {version : Version} {pushed : List Observation} {verdict verdict' : Verdict}
    (hcaches : m.world.caches.HoldIn (· ∉ r.slots) P)
    (hbegins : Scrape.Begins s.gateway s.target s.scrapers s.excluded only r m session version m₀)
    (hrun : Scrape.Yields (r.run session version) m₀ pushed verdict m₁)
    (hpushed : Scrape.success r.name session.database verdict' ∉ pushed)
    (hreported : Scrape.success r.name session.database verdict' ∈ s.sink only m) :
    ∃ before after, s.sink only m =
        before ++ (pushed ++ Scrape.duration r.name session.database (m₁.time - m₀.time) ::
          Scrape.success r.name session.database verdict :: after) ∧
      (∀ o ∈ before, P o) ∧ ∀ o ∈ after, P o := by
  obtain ⟨before, after, hresults, hbefore, hafter⟩ := h.exists_results hcaches hbegins hrun
  have hprefix : s.sink only m <+: Event.results ((Scrape.collect s.gateway s.target s.scrapers
      s.excluded only).run m.time m.world).events := by
    rw [sink_eq]
    exact (Activity.events_run_limit_isPrefix _ _ _ _).filterMap _
  rw [hresults] at hprefix
  let front := before ++ (pushed ++
    [Scrape.duration r.name session.database (m₁.time - m₀.time)])
  have hfront : Scrape.success r.name session.database verdict' ∉ front := by
    simp only [front, List.mem_append, List.mem_singleton, not_or]
    refine ⟨fun hmem => h.reported _ _ (hbefore _ hmem), hpushed, fun heq => ?_⟩
    simpa [Scrape.success, Scrape.duration] using congrArg Observation.name heq
  have hsplit : before ++ (pushed ++ Scrape.duration r.name session.database (m₁.time - m₀.time) ::
      Scrape.success r.name session.database verdict :: after) =
        front ++ Scrape.success r.name session.database verdict :: after := by
    simp [front]
  rw [hsplit] at hprefix
  obtain ⟨rest, hrest, hsink⟩ := exists_of_prefix hprefix hfront hreported
  refine ⟨before, rest, ?_, hbefore, fun o ho => hafter o (hrest.mem ho)⟩
  rw [hsink]
  simp [front]

end Service
end PgMetrics
