import PgMetrics.Proofs.Scraper.Run
import PgMetrics.Scrape

/-! # Invariants of a scrape

An invariant speaks of the log of a scrape and of the moment it has come to.  A scrape may be dropped
in any wait, and then less may hold, so an invariant has a second part for logs that were cut off.

On an open connection a scrape does a few kinds of things over and over.  `Invariant` lists them, and
an invariant that each of them keeps is kept by all that happens there.  `collect_cases` says what
comes before and after.
-/
namespace PgMetrics.Scrape

variable {σ κ α β : Type}

/-- An activity under a limit, begun where `kept` holds, leaves a log for which `cut` holds, and one
for which `kept` holds again where it comes to its end. -/
def Keeps (kept cut : List Event → Moment σ → Prop) (a : Activity (World σ) Event α) : Prop :=
  ∀ span log (m : Moment σ), kept log m → let o := (a.limit span).run m.time m.world
    cut (log ++ o.events) o.moment ∧ ∀ v, o.value = some v → kept (log ++ o.events) o.moment

section Keeps
variable {kept cut : List Event → Moment σ → Prop}

/-- What takes no time is not dropped. -/
theorem keeps_of_kept {a : Activity (World σ) Event α} (hcut : ∀ log m, kept log m → cut log m)
    (h : ∀ span log (m : Moment σ), kept log m →
      let o := (a.limit span).run m.time m.world
      kept (log ++ o.events) o.moment) : Keeps kept cut a := by
  intro span log m hkept
  have hafter := h span log m hkept
  exact ⟨hcut _ _ hafter, fun _ _ => hafter⟩

theorem keeps_bind {a : Activity (World σ) Event α} {next : α → Activity (World σ) Event β}
    (ha : Keeps kept cut a) (hnext : ∀ v, Keeps kept cut (next v)) :
    Keeps kept cut (a >>= next) := by
  intro span log m h
  obtain ⟨hcut, hkept⟩ := ha span log m h
  cases hv : ((a.limit span).run m.time m.world).value with
  | none =>
    rw [Activity.run_limit_bind_of_none hv]
    refine ⟨hcut, ?_⟩
    rintro _ ⟨⟩
  | some v =>
    rw [Activity.run_limit_bind_of_some hv]
    have hsecond := hnext v (span - (((a.limit span).run m.time m.world).time - m.time)) _ _
      (hkept v hv)
    simp only [List.append_assoc] at hsecond
    exact hsecond

end Keeps

/-- What keeps an invariant on an open connection: questions, which leave the caches alone, what the
scrape notes of itself and of the connections after the first one, and the segments of scrapers. -/
structure Invariant (scrapers : List (Scraper σ κ)) (kept cut : List Event → Moment σ → Prop) :
    Prop where
  weaken : ∀ {log m}, kept log m → cut log m
  asked : ∀ {log m m'}, kept log m → m'.world.caches = m.world.caches → kept log m'
  reported : ∀ {log m} v, kept log m → kept (log ++ [.observed (info v)]) m
  requested : ∀ {log m} d, kept log m → kept (log ++ [.requested d]) m
  opened : ∀ {log m} n d, 0 < n → kept log m → kept (log ++ [.opened n d]) m
  closed : ∀ {log m} n, 0 < n → kept log m → kept (log ++ [.closed n]) m
  segment : ∀ s ∈ scrapers, ∀ session version, Keeps kept cut (segment s session version)

namespace Invariant

variable {scrapers : List (Scraper σ κ)} {kept cut : List Event → Moment σ → Prop}

theorem pure (h : Invariant scrapers kept cut) (v : α) :
    Keeps kept cut (Pure.pure v : Activity (World σ) Event α) := by
  refine keeps_of_kept (fun _ _ => h.weaken) ?_
  intro span log m hkept
  simpa using hkept

theorem emit (h : Invariant scrapers kept cut) {e : Event}
    (he : ∀ log m, kept log m → kept (log ++ [e]) m) :
    Keeps kept cut (.emit e : Activity (World σ) Event Unit) :=
  keeps_of_kept (fun _ _ => h.weaken) fun _ => he

theorem asking (h : Invariant scrapers kept cut) (q : Query σ α) :
    Keeps kept cut (Scraper.asking q) := by
  refine keeps_of_kept (fun _ _ => h.weaken) ?_
  intro span log m hkept
  rw [Scraper.run_limit_asking]
  simp only [List.append_nil]
  exact h.asked hkept rfl

theorem segments (h : Invariant scrapers kept cut) {ss : List (Scraper σ κ)}
    (hss : ∀ s ∈ ss, s ∈ scrapers) (session : Session κ) (version : Version) :
    Keeps kept cut (Scrape.segments session version ss) := by
  induction ss with
  | nil => exact h.pure ()
  | cons s rest ih =>
    rw [List.forall_mem_cons] at hss
    exact keeps_bind (h.segment s hss.1 session version) fun _ => ih hss.2

theorem connect (h : Invariant scrapers kept cut) (g : Gateway σ κ) {number : Nat}
    (target : Target)
    (hopened : ∀ log m, kept log m → kept (log ++ [.opened number target.database]) m) :
    Keeps kept cut (Scrape.connect g number target) := by
  refine keeps_bind (h.emit fun _ _ => h.requested _) fun _ => ?_
  refine keeps_bind (h.asking _) fun answer => ?_
  cases answer with
  | error failure => exact h.pure _
  | ok session => exact keeps_bind (h.emit hopened) fun _ => h.pure _

theorem close (h : Invariant scrapers kept cut) (g : Gateway σ κ) {number : Nat}
    (hclosed : ∀ log m, kept log m → kept (log ++ [.closed number]) m) (session : Session κ) :
    Keeps kept cut (Scrape.close g number session) :=
  keeps_bind (h.emit hclosed) fun _ => keeps_bind (h.asking _) fun _ => h.pure ()

theorem walk (h : Invariant scrapers kept cut) {ss : List (Scraper σ κ)}
    (hss : ∀ s ∈ ss, s ∈ scrapers) (g : Gateway σ κ) (target : Target) (version : Version)
    {number : Nat} (hnumber : 0 < number) (databases : List String) :
    Keeps kept cut (Scrape.walk g target version ss number databases) := by
  induction databases generalizing number with
  | nil => exact h.pure ()
  | cons d rest ih =>
    refine keeps_bind (h.connect g _ fun _ _ => h.opened _ _ hnumber) fun answer => ?_
    cases answer with
    | error failure => exact h.pure ()
    | ok session =>
      refine keeps_bind (h.segments hss session version) fun _ => ?_
      exact keeps_bind (h.close g (fun _ _ => h.closed _ hnumber) session) fun _ =>
        ih (Nat.succ_pos number)

/-- Whatever happens while the first connection is open keeps the invariant. -/
theorem onServer {set : ScraperSet σ κ} (h : Invariant set.all kept cut) (g : Gateway σ κ)
    (target : Target) (excluded only : List String) (session : Session κ) :
    Keeps kept cut (Scrape.onServer g target set excluded only session) := by
  have hglobal : ∀ s ∈ set.global.filter (selected only), s ∈ set.all := by
    intro s hs
    exact List.mem_append_left _ (List.mem_of_mem_filter hs)
  have hperDatabase : ∀ s ∈ set.perDatabase.filter (selected only), s ∈ set.all := by
    intro s hs
    exact List.mem_append_right _ (List.mem_of_mem_filter hs)
  refine keeps_bind (h.asking _) fun answer => ?_
  cases answer with
  | error failure => exact h.pure ()
  | ok raw =>
    refine keeps_bind (h.emit fun _ _ => h.reported _) fun _ => ?_
    refine keeps_bind (h.asking _) fun answer => ?_
    cases answer with
    | error failure => exact h.pure ()
    | ok databases =>
      refine keeps_bind (h.segments hglobal session _) fun _ => ?_
      exact h.walk hperDatabase g target _ Nat.one_pos databases

/-- What the first connection and the signal keep as well is kept by a whole scrape. -/
theorem collect {set : ScraperSet σ κ} (h : Invariant set.all kept cut) {target : Target}
    (hopened : ∀ log m, kept log m → kept (log ++ [.opened 0 target.database]) m)
    (hup : ∀ value log m, kept log m → kept (log ++ [.observed (up value)]) m)
    (hclosed : ∀ log m, kept log m → kept (log ++ [.closed 0]) m) (g : Gateway σ κ)
    (excluded only : List String) :
    Keeps kept cut (Scrape.collect g target set excluded only) := by
  refine keeps_bind (h.connect g target hopened) fun answer => ?_
  cases answer with
  | error failure => exact h.emit (hup 0)
  | ok session =>
    refine keeps_bind (h.emit (hup 1)) fun _ => ?_
    exact keeps_bind (h.onServer g target excluded only session) fun _ => h.close g hclosed session

end Invariant

/-- A segment keeps what the run in it and the two reports after it keep. -/
theorem keeps_segment {kept cut : List Event → Moment σ → Prop}
    (hcut : ∀ log m, kept log m → cut log m) {s : Scraper σ κ}
    {session : Session κ} {version : Version} (hrun : Keeps kept cut (s.run session version))
    (hduration : ∀ span log m, kept log m →
      kept (log ++ [.observed (duration s.name session.database span)]) m)
    (hsuccess : ∀ verdict log m, kept log m →
      kept (log ++ [.observed (success s.name session.database verdict)]) m) :
    Keeps kept cut (segment s session version) := by
  have hnow : Keeps kept cut (.now : Activity (World σ) Event Nat) := by
    refine keeps_of_kept hcut ?_
    intro span log m hkept
    simpa using hkept
  refine keeps_bind hnow fun _ => keeps_bind hrun fun _ => keeps_bind hnow fun _ => ?_
  exact keeps_bind (keeps_of_kept hcut fun _ => hduration _) fun _ =>
    keeps_of_kept hcut fun _ => hsuccess _

section Segment
variable {s : Scraper σ κ} {session : Session κ} {version : Version} {span : Nat} {m : Moment σ}

theorem run_limit_segment_of_none
    (h : (((s.run session version).limit span).run m.time m.world).value = none) :
    ((segment s session version).limit span).run m.time m.world =
      let o := ((s.run session version).limit span).run m.time m.world
      ⟨o.time, o.state, o.events, none⟩ := by
  rw [segment, Activity.run_limit_now_bind, Activity.run_limit_bind_of_none h]

/-- A run that comes to its end is followed by its two reports. -/
theorem run_limit_segment_of_some {verdict : Verdict}
    (h : (((s.run session version).limit span).run m.time m.world).value = some verdict) :
    ((segment s session version).limit span).run m.time m.world =
      let o := ((s.run session version).limit span).run m.time m.world
      ⟨o.time, o.state, o.events ++ [.observed (duration s.name session.database (o.time - m.time)),
        .observed (success s.name session.database verdict)], some ()⟩ := by
  rw [segment, Activity.run_limit_now_bind, Activity.run_limit_bind_of_some h]
  rfl

end Segment

section Beginning
variable (g : Gateway σ κ) (target : Target) (set : ScraperSet σ κ) (excluded only : List String)
  (span : Nat) (m : Moment σ)

def connecting : Activity.Outcome σ Empty (Option (Except Failure (Session κ))) :=
  ((g.connect target).limit span).run m.time m.world.server

def connected : Moment σ :=
  ⟨(connecting g target span m).time,
    { m.world with server := (connecting g target span m).state }⟩

theorem run_limit_connect (number : Nat) :
    ((connect g number target).limit span).run m.time m.world =
      ⟨(connecting g target span m).time, (connected g target span m).world,
        .requested target.database :: match (connecting g target span m).value with
          | some (.ok _) => [.opened number target.database]
          | _ => [],
        (connecting g target span m).value⟩ := by
  have hasking : ((Scraper.asking (g.connect target)).limit span).run m.time m.world =
      ⟨(connecting g target span m).time, (connected g target span m).world, [],
        (connecting g target span m).value⟩ := Scraper.run_limit_asking _ _ _ _
  rw [connect, Activity.run_limit_emit_bind]
  cases hv : (connecting g target span m).value with
  | none =>
    rw [hv] at hasking
    rw [Activity.run_limit_bind_of_none (by rw [hasking]), hasking]
  | some answer =>
    rw [hv] at hasking
    rw [Activity.run_limit_bind_of_some (by rw [hasking]), hasking]
    cases answer <;> rfl

omit m in
theorem run_limit_close (number : Nat) (session : Session κ) (m : Moment σ) :
    let o := ((close g number session).limit span).run m.time m.world
    o.events = [.closed number] ∧ o.state.caches = m.world.caches := by
  rw [close, Activity.run_limit_emit_bind]
  have hasking := Scraper.run_limit_asking (g.close session.handle) span m.time m.world
  cases hv : ((g.close session.handle).limit span |>.run m.time m.world.server).value with
  | none =>
    rw [Activity.run_limit_bind_of_none (by rw [hasking, hv]), hasking]
    exact ⟨rfl, rfl⟩
  | some answer =>
    rw [Activity.run_limit_bind_of_some (by rw [hasking, hv]), hasking]
    exact ⟨rfl, rfl⟩

def greeting : List Event :=
  [.requested target.database, .opened 0 target.database, .observed (up 1)]

/-- What a scrape comes to under a limit: it is dropped before it is connected, the connection is
refused, or it is opened, and then all else happens on it. -/
theorem collect_cases :
    let o := ((collect g target set excluded only).limit span).run m.time m.world
    let c := connecting g target span m
    (c.value = none ∧ o.value = none ∧ o.events = [.requested target.database] ∧
      o.state.caches = m.world.caches) ∨
    (∃ failure, c.value = some (.error failure) ∧
      o.events = [.requested target.database, .observed (up 0)] ∧
      o.state.caches = m.world.caches) ∨
    ∃ session rest, c.value = some (.ok session) ∧
      let m₁ := connected g target span m
      let p := ((onServer g target set excluded only session).limit rest).run m₁.time m₁.world
      o.state.caches = p.state.caches ∧
        (p.value = none ∧ o.value = none ∧ o.events = greeting target ++ p.events ∨
          p.value = some () ∧ o.events = greeting target ++ p.events ++ [.closed 0]) := by
  intro o c
  have hconnect := run_limit_connect g target span m 0
  cases hv : (connecting g target span m).value with
  | none =>
    left
    simp only [hv] at hconnect
    have ho : o = ⟨c.time, (connected g target span m).world, [.requested target.database],
        none⟩ := by
      simp only [o, collect]
      rw [Activity.run_limit_bind_of_none (by rw [hconnect]), hconnect]
    rw [ho]
    exact ⟨rfl, rfl, rfl, rfl⟩
  | some answer =>
    simp only [hv] at hconnect
    cases answer with
    | error failure =>
      right; left
      have ho : o = ⟨c.time, (connected g target span m).world,
          [.requested target.database, .observed (up 0)], some ()⟩ := by
        simp only [o, collect]
        rw [Activity.run_limit_bind_of_some (by rw [hconnect]), hconnect]
        rfl
      rw [ho]
      exact ⟨failure, rfl, rfl, rfl⟩
    | ok session =>
      right; right
      let p := ((onServer g target set excluded only session).limit (span - (c.time - m.time))).run
        c.time (connected g target span m).world
      have ho : o = { ((onServer g target set excluded only session >>= fun _ =>
          close g 0 session).limit (span - (c.time - m.time))).run c.time
            (connected g target span m).world with
          events := greeting target ++ (((onServer g target set excluded only session >>= fun _ =>
            close g 0 session).limit (span - (c.time - m.time))).run c.time
              (connected g target span m).world).events } := by
        simp only [o, collect]
        rw [Activity.run_limit_bind_of_some (by rw [hconnect]), hconnect]
        rfl
      refine ⟨session, span - (c.time - m.time), rfl, ?_⟩
      rw [ho]
      cases hp : p.value with
      | none =>
        rw [Activity.run_limit_bind_of_none hp]
        exact ⟨rfl, Or.inl ⟨hp, rfl, rfl⟩⟩
      | some u =>
        rw [Activity.run_limit_bind_of_some hp]
        obtain ⟨hevents, hcaches⟩ := run_limit_close g
          (span - (c.time - m.time) - (p.time - c.time)) 0 session p.moment
        refine ⟨hcaches, Or.inr ⟨hp, ?_⟩⟩
        change greeting target ++ (p.events ++ _) = _
        rw [List.append_assoc]
        exact congrArg (fun es => greeting target ++ (p.events ++ es)) hevents

end Beginning

end PgMetrics.Scrape
