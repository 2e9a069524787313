import PgMetrics.Proofs.Cache.Refresh
import PgMetrics.Proofs.Rehearsal.Impartial
import PgMetrics.Proofs.Service.History

/-! # Scrapes side by side are scrapes one after another

Scrapes that wait for the lock while others run, and while signs of life come and go, do what the same
scrapes do alone, one after another in the order of asking: each begins as soon as it has been asked
for and the one before it has returned, and its time is counted from there.  Only the connections
that they get may be others.
-/
namespace PgMetrics

open Activity (Alike Path)

variable {σ κ ν μ γ : Type}

namespace Service

/-- Scrapes alone, each begun once it has been asked for and the one before it has returned. -/
def scrapeWhenAsked (s : Service σ κ) :
    List (Nat × List String) → Activity (World σ) Event (List (List Observation))
  | [] => return []
  | (asked, only) :: rest => do
    .pause (asked - (← .now))
    let observations ← s.scrape only
    let more ← s.scrapeWhenAsked rest
    return observations :: more

theorem chart_scrape (s : Service σ κ) (only : List String) (time : Nat) (w : World σ) :
    (s.scrape only).chart time w =
      let o := (s.attempt only).run time w
      (s.attempt only).chart time w ++ (Event.held o.events).map fun number =>
        (o.time, .dropped number) := by
  simp [scrape, Function.comp_def]

theorem run_scrapeWhenAsked_cons (s : Service σ κ) (asked : Nat) (only : List String)
    (rest : List (Nat × List String)) (time : Nat) (w : World σ) :
    (s.scrapeWhenAsked ((asked, only) :: rest)).run time w =
      let o := (s.scrape only).run (max time asked) w
      let p := (s.scrapeWhenAsked rest).run o.time o.state
      ⟨p.time, p.state, o.events ++ p.events, o.value :: p.value⟩ := by
  have hbegun : time + (asked - time) = max time asked := by omega
  simp only [scrapeWhenAsked, Activity.run_bind, Activity.run_now, Activity.pause, Activity.run,
    Activity.run_pure, hbegun, List.nil_append, List.append_nil]

theorem chart_scrapeWhenAsked_cons (s : Service σ κ) (asked : Nat) (only : List String)
    (rest : List (Nat × List String)) (time : Nat) (w : World σ) :
    (s.scrapeWhenAsked ((asked, only) :: rest)).chart time w =
      let o := (s.scrape only).run (max time asked) w
      (s.scrape only).chart (max time asked) w ++
        (s.scrapeWhenAsked rest).chart o.time o.state := by
  have hbegun : time + (asked - time) = max time asked := by omega
  have hpause : (Activity.pause (asked - time)).run time w =
      (⟨max time asked, w, [], ()⟩ : Activity.Outcome (World σ) Event Unit) := by
    rw [← hbegun]
    rfl
  simp only [scrapeWhenAsked, Activity.chart_bind, Activity.chart_now, Activity.chart_pause,
    Activity.chart_pure, Activity.run_now, hpause, List.nil_append, List.append_nil]

theorem run_scrapeWhenAsked_concat (s : Service σ κ) (calls : List (Nat × List String))
    (asked : Nat) (only : List String) (time : Nat) (w : World σ) :
    let o := (s.scrapeWhenAsked calls).run time w
    let p := (s.scrape only).run (max o.time asked) o.state
    (s.scrapeWhenAsked (calls ++ [(asked, only)])).run time w =
      ⟨p.time, p.state, o.events ++ p.events, o.value ++ [p.value]⟩ := by
  induction calls generalizing time w with
  | nil =>
    rw [List.nil_append, run_scrapeWhenAsked_cons]
    simp [scrapeWhenAsked]
  | cons call rest ih =>
    obtain ⟨asked', only'⟩ := call
    simp only [List.cons_append, run_scrapeWhenAsked_cons, ih, List.append_assoc]

theorem chart_scrapeWhenAsked_concat (s : Service σ κ) (calls : List (Nat × List String))
    (asked : Nat) (only : List String) (time : Nat) (w : World σ) :
    let o := (s.scrapeWhenAsked calls).run time w
    (s.scrapeWhenAsked (calls ++ [(asked, only)])).chart time w =
      (s.scrapeWhenAsked calls).chart time w ++
        (s.scrape only).chart (max o.time asked) o.state := by
  induction calls generalizing time w with
  | nil =>
    rw [List.nil_append, chart_scrapeWhenAsked_cons]
    exact List.append_nil _
  | cons call rest ih =>
    obtain ⟨asked', only'⟩ := call
    simp only [List.cons_append, chart_scrapeWhenAsked_cons, run_scrapeWhenAsked_cons, ih,
      List.append_assoc]

/-- Scrapes that have all been asked for at the beginning follow each other at once. -/
theorem run_scrapeWhenAsked_of_le (s : Service σ κ) {calls : List (Nat × List String)} {time : Nat}
    (hcalls : ∀ call ∈ calls, call.1 ≤ time) (w : World σ) :
    (s.scrapeWhenAsked calls).run time w = (s.scrapeInTurn (calls.map Prod.snd)).run time w := by
  induction calls generalizing time w with
  | nil => rfl
  | cons call rest ih =>
    rw [List.forall_mem_cons] at hcalls
    have hnow : max time call.1 = time := by omega
    have hrest : ∀ call ∈ rest, call.1 ≤ ((s.scrape _).run time w).time := fun c hc =>
      Nat.le_trans (hcalls.2 c hc) (Activity.time_le_run (s.scrape call.2) time w)
    rw [run_scrapeWhenAsked_cons, hnow]
    simp only [ih hrest, List.map_cons, scrapeInTurn, Activity.run_bind, Activity.run_pure,
      List.append_nil]

end Service

def ScrapeCall.request (c : ScrapeCall σ) : Nat × List String := (c.asked, c.only)

def Report.free (time : Nat) (reports : List (Report σ)) : Nat :=
  (reports.getLast?.map Report.ended).getD time

/-- A scrape begins when it has been asked for and the lock is free, and its time is counted from
there: it is dropped only at the end of it. -/
structure Report.Timely (timeout free : Nat) (c : ScrapeCall σ) (r : Report σ) : Prop where
  begun : r.since = max free c.asked
  ended : r.ended ≤ r.since + timeout
  cut : r.whole = false → r.ended = r.since + timeout

theorem Report.free_concat (time : Nat) (reports : List (Report σ)) (r : Report σ) :
    Report.free time (reports ++ [r]) = r.ended := by
  simp [free]

/-- Scrapes that have returned come with their reports, each of which is timely. -/
theorem Turns.timely {view : World σ → γ} {s : Service σ κ} {m m₁ : Moment σ}
    {past : List (ScrapeCall σ)} (h : Turns view s m past m₁) :
    ∃ reports : List (Report σ), past.map ScrapeCall.turn = reports.map .returned ∧
      m₁.time = Report.free m.time reports ∧
      ∀ (number : Nat) (c : ScrapeCall σ) (r : Report σ), past[number]? = some c →
        reports[number]? = some r → r.Timely s.timeout (Report.free m.time (reports.take number)) c := by
  induction h with
  | nil => exact ⟨[], rfl, rfl, by simp⟩
  | @snoc past m₁ asked ended only found left log value _ hview hpath ih =>
    obtain ⟨reports, hturns, hfree, htimely⟩ := ih
    have hlength : past.length = reports.length := by
      have hboth := congrArg List.length hturns
      rwa [List.length_map, List.length_map] at hboth
    obtain ⟨_, hended, hcut⟩ := hpath.of_limit
    let r := Report.close (max m₁.time asked) found ended left value log
    refine ⟨reports ++ [r], by simp [hturns, r], (Report.free_concat m.time reports r).symm, ?_⟩
    intro number c r' hc hr'
    rcases getElem?_concat_cases hc with ⟨hlt, hc⟩ | ⟨hnumber, rfl⟩
    · rw [List.getElem?_append_left (hlength ▸ hlt)] at hr'
      rw [List.take_append_of_le_length (by omega)]
      exact htimely number c r' hc hr'
    · rw [hnumber, hlength, List.getElem?_concat_length] at hr'
      cases hr'
      rw [hnumber, hlength, List.take_left, ← hfree]
      refine ⟨rfl, hended (by simp), fun hwhole => hcut ?_⟩
      cases value with
      | none => rfl
      | some _ => cases hwhole

/-- A scrape among others does what it does alone. -/
theorem Service.Impartial.scrape {view : σ → ν} {face : κ → μ} {s : Service σ κ}
    (hs : s.Impartial view face) {only : List String} {since ended : Nat} {found left w : World σ}
    {log : Log} {value : Option Unit} (hfound : found.seen view = w.seen view)
    (hpath : Path (World.seen view) (s.attempt only) since found log ended left (some value)) :
    let r := Report.close since found ended left value log
    let o := (s.scrape only).run since w
    (s.scrape only).chart since w = r.log ∧ o.value = r.observations ∧ o.time = ended ∧
      left.seen view = o.state.seen view := by
  obtain ⟨hlog, hended, hleft, _⟩ := (hs.attempt only).path hfound hpath
  have hevents := Activity.chart_map_snd (s.attempt only) since w
  rw [hlog] at hevents
  rw [Service.chart_scrape, Service.run_scrape]
  simp only [hlog, hended, hleft, ← hevents, Report.close, true_and, and_true]
  rw [Event.results, List.filterMap_map]
  rfl

/-- Scrapes that have returned have done what they do alone, one after another. -/
theorem Turns.serial {view : σ → ν} {face : κ → μ} {s : Service σ κ} (hs : s.Impartial view face)
    {m m₁ : Moment σ} {past : List (ScrapeCall σ)} {reports : List (Report σ)}
    (h : Turns (World.seen view) s m past m₁)
    (hreports : past.map ScrapeCall.turn = reports.map .returned) :
    let alone := s.scrapeWhenAsked (past.map ScrapeCall.request)
    let o := alone.run m.time m.world
    alone.chart m.time m.world = reports.flatMap Report.log ∧
      o.value = reports.map Report.observations ∧ o.time = m₁.time ∧
      m₁.world.seen view = o.state.seen view := by
  induction h generalizing reports with
  | nil =>
    cases reports with
    | nil => exact ⟨rfl, rfl, rfl, rfl⟩
    | cons => cases hreports
  | @snoc past m₁ asked ended only found left log value _ hview hpath ih =>
    rcases List.eq_nil_or_concat reports with rfl | ⟨reports, r, rfl⟩
    · simp at hreports
    rw [List.concat_eq_append, List.map_append, List.map_append] at hreports
    obtain ⟨hbefore, hlast⟩ := List.append_inj' hreports rfl
    simp only [List.map_cons, List.map_nil, List.cons.injEq, Turn.returned.injEq, and_true] at hlast
    obtain ⟨hchart, hvalue, htime, hworld⟩ := ih hbefore
    obtain ⟨hchart', hvalue', htime', hworld'⟩ := hs.scrape (hview.symm.trans hworld) hpath
    simp only [List.concat_eq_append, List.map_append, List.map_cons, List.map_nil,
      ScrapeCall.request, Service.run_scrapeWhenAsked_concat, Service.chart_scrapeWhenAsked_concat,
      List.flatMap_append, List.flatMap_singleton, hchart, hvalue, htime, hchart', hvalue', htime',
      hworld', hlast, and_self]

namespace Traffic

structure InTurn (s : Service σ κ) (m : Moment σ) (t : Traffic σ) (past : List (ScrapeCall σ))
    (reports : List (Report σ)) (current : Option (ScrapeCall σ))
    (future : List (ScrapeCall σ)) : Prop where
  scrapes : t.scrapes = past ++ current.toList ++ future
  holder : t.holder = current.map fun _ => past.length
  returned : past.map ScrapeCall.turn = reports.map .returned
  timely : ∀ (number : Nat) (c : ScrapeCall σ) (r : Report σ), past[number]? = some c →
    reports[number]? = some r → r.Timely s.timeout (Report.free m.time (reports.take number)) c
  running : ∀ c ∈ current, ∃ since found thread, c.turn = .running since found thread ∧
    since = max (Report.free m.time reports) c.asked ∧ t.time ≤ since + s.timeout
  waiting : ∀ c ∈ future, c.turn = .waiting

/-- What scrapes have done is what they do alone: the same events at the same times, among them the
start of every run, with the same observations and caches. -/
structure Serial (view : σ → ν) (s : Service σ κ) (m : Moment σ) (t : Traffic σ)
    (past : List (ScrapeCall σ)) (reports : List (Report σ)) (current : Option (ScrapeCall σ)) :
    Prop where
  log : (s.scrapeWhenAsked (past.map ScrapeCall.request)).chart m.time m.world =
    reports.flatMap Report.log
  observations : ((s.scrapeWhenAsked (past.map ScrapeCall.request)).run m.time m.world).value =
    reports.map Report.observations
  left : current = none → t.world.seen view =
    ((s.scrapeWhenAsked (past.map ScrapeCall.request)).run m.time m.world).state.seen view
  underway : reports.flatMap Report.log ++ current.toList.flatMap ScrapeCall.log <+:
    (s.scrapeWhenAsked ((past ++ current.toList).map ScrapeCall.request)).chart m.time m.world

section Ordered
variable {s : Service σ κ} {m m₁ : Moment σ} {t : Traffic σ} {past future : List (ScrapeCall σ)}
  {current : Option (ScrapeCall σ)}

theorem inTurn_of_ordered {view : World σ → γ} (h : Ordered view s m t past m₁ current future) :
    ∃ reports, InTurn s m t past reports current future := by
  obtain ⟨reports, hreturned, hfree, htimely⟩ := h.turns.timely
  refine ⟨reports, h.scrapes, h.holder, hreturned, htimely, fun c hc => ?_,
    fun c hc => (h.waiting c hc).1⟩
  obtain ⟨since, found, thread, hunderway⟩ := h.taken c hc
  have hbegun := hunderway.begun
  rw [hfree] at hbegun
  refine ⟨since, found, thread, hunderway.turn, hbegun, ?_⟩
  have hrest := Path.of_run view thread.rest thread.due t.world
  have hlimit := ((hunderway.follows _ _ _ _ hrest).of_limit.2.1) (by simp)
  exact Nat.le_trans hunderway.due (Nat.le_trans hrest.le hlimit)

theorem serial_of_ordered {view : σ → ν} {face : κ → μ} (hs : s.Impartial view face)
    (h : Ordered (World.seen view) s m t past m₁ current future) {reports : List (Report σ)}
    (hreturned : past.map ScrapeCall.turn = reports.map .returned) :
    Serial view s m t past reports current := by
  obtain ⟨hchart, hvalue, htime, hworld⟩ := h.turns.serial hs hreturned
  refine ⟨hchart, hvalue, fun hcurrent => (h.free hcurrent).1.symm.trans hworld, ?_⟩
  cases current with
  | none => simp [hchart]
  | some c =>
    obtain ⟨since, found, thread, hunderway⟩ := h.taken c rfl
    obtain ⟨es, ended, left, value, hpath⟩ := hunderway.follows.exists_path
    have hlog := ScrapeCall.log_of_running hunderway.turn
    have hbegun := hunderway.begun
    rw [← htime] at hbegun
    obtain ⟨hrest, _⟩ := hs.scrape (hunderway.same.symm.trans hworld) hpath
    simp only [Option.toList_some, List.map_append, List.map_cons, List.map_nil,
      List.flatMap_singleton, ScrapeCall.request, Service.chart_scrapeWhenAsked_concat, hlog]
    rw [hchart, ← hbegun, hrest, Report.close, List.append_assoc thread.log]
    exact (List.prefix_append_right_inj _).mpr (List.prefix_append _ _)

end Ordered

/-- Scrapes take turns in the order of asking whatever clients do, and signs of life wait for nobody.
If nobody else touches what scrapes see of the server, they do what they do alone.  Every service is
impartial to the identity, so for scrapes among themselves nothing is asked of the server. -/
theorem linear_follow (view : σ → ν) (face : κ → μ) (s : Service σ κ) (m : Moment σ)
    (moves : List (Move σ)) :
    let t := (start m.time m.world).follow s moves
    (∀ c ∈ t.pings, c.Underway s t.time) ∧
      ∃ past reports current future, InTurn s m t past reports current future ∧
        (s.Impartial view face → (∀ move ∈ moves, move.Spares (World.seen view) s) →
          Serial view s m t past reports current) := by
  refine ⟨pings_follow s m moves, ?_⟩
  by_cases hmoves : ∀ move ∈ moves, move.Spares (World.seen view) s
  · obtain ⟨past, _, current, future, hordered⟩ := ordered_follow s m hmoves
    obtain ⟨reports, hturn⟩ := inTurn_of_ordered hordered
    exact ⟨past, reports, current, future, hturn, fun hs _ =>
      serial_of_ordered hs hordered hturn.returned⟩
  · obtain ⟨past, _, current, future, hordered⟩ := ordered_caches s m moves
    obtain ⟨reports, hturn⟩ := inTurn_of_ordered hordered
    exact ⟨past, reports, current, future, hturn, fun _ h => absurd h hmoves⟩

/-- When all scrapes have returned, none of them has the lock or waits for it. -/
theorem InTurn.all_past {s : Service σ κ} {m : Moment σ} {t : Traffic σ}
    {past future : List (ScrapeCall σ)} {reports : List (Report σ)}
    {current : Option (ScrapeCall σ)} (h : InTurn s m t past reports current future)
    (hall : ∀ number < t.scrapes.length, (t.report? number).isSome) :
    current = none ∧ future = [] ∧ past = t.scrapes := by
  have hreturned : ∀ c ∈ t.scrapes, ∃ r, c.turn = .returned r := by
    intro c hc
    obtain ⟨number, hlt, rfl⟩ := List.mem_iff_getElem.mp hc
    obtain ⟨r, hr⟩ := Option.isSome_iff_exists.mp (hall number hlt)
    obtain ⟨c', hc', hturn⟩ := exists_of_report? hr
    rw [List.getElem?_eq_getElem hlt, Option.some.injEq] at hc'
    exact ⟨r, hc' ▸ hturn⟩
  have hcurrent : current = none := by
    cases hc : current with
    | none => rfl
    | some c =>
      obtain ⟨_, _, _, hturn, _⟩ := h.running c hc
      obtain ⟨_, hover⟩ := hreturned c (by simp [h.scrapes, hc])
      rw [hturn] at hover
      cases hover
  have hfuture : future = [] := by
    refine List.eq_nil_iff_forall_not_mem.mpr fun c hc => ?_
    obtain ⟨_, hover⟩ := hreturned c (by simp [h.scrapes, hc])
    rw [h.waiting c hc] at hover
    cases hover
  refine ⟨hcurrent, hfuture, ?_⟩
  rw [h.scrapes, hcurrent, hfuture]
  simp

/-- A sign of life comes and goes while one of two scrapes has the lock. -/
theorem linear_follow_halved :
    let m : Moment Rehearsal.Stage := ⟨0, ⟨{ script := { version := "16.1" } }, .empty⟩⟩
    let moves := [.askScrape [], .askScrape [], .askPing, .grant] ++ List.replicate 3 (.scrape 0) ++
      List.replicate 20 (.ping 0) ++ round 0 ++ round 1
    let t := (start m.time m.world).follow halved moves
    (t.pings.map fun c => (c.asked, c.thread.due, (c.thread.value? t.time).isSome)) =
        [(0, 0, true)] ∧
      t.time = 100 ∧ ∃ reports, t.scrapes.map ScrapeCall.turn = reports.map .returned ∧
        Serial Rehearsal.Stage.visible halved m t t.scrapes reports none := by
  intro m moves t
  have hpings : (t.pings.map fun c => (c.asked, c.thread.due, (c.thread.value? t.time).isSome)) =
      [(0, 0, true)] := by
    decide +kernel
  have htime : t.time = 100 := by decide +kernel
  have hall : ∀ number < t.scrapes.length, (t.report? number).isSome := by decide +kernel
  have himpartial : halved.Impartial Rehearsal.Stage.visible Rehearsal.Stage.faceless := by
    refine Rehearsal.impartial_of_parts rfl fun r hr => ?_
    simp only [halved, ScraperSet.all, List.append_nil, List.mem_cons, List.not_mem_nil,
      or_false] at hr
    rcases hr with rfl | rfl
    · exact ⟨_, rfl, by simp [Service.tardy, Rehearsal.ValueCue.ofConnection]⟩
    · exact ⟨_, rfl, by simp [Service.tardy, Rehearsal.ValueCue.ofConnection]⟩
  have hspares : ∀ move ∈ moves, move.Spares (World.seen Rehearsal.Stage.visible) halved := by
    intro move hmove
    cases move with
    | askPing => exact Rehearsal.spares_askPing halved rfl
    | change server => simp [moves, round] at hmove
    | _ => trivial
  obtain ⟨_, past, reports, current, future, hturn, hserial⟩ :=
    linear_follow Rehearsal.Stage.visible Rehearsal.Stage.faceless halved m moves
  obtain ⟨hcurrent, _, hpast⟩ := hturn.all_past hall
  have hserial := hserial himpartial hspares
  have hreports := hturn.returned
  rw [hpast, hcurrent] at hserial
  rw [hpast] at hreports
  exact ⟨hpings, htime, reports, hreports, hserial⟩

end Traffic
end PgMetrics
