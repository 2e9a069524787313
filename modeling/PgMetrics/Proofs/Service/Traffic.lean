import PgMetrics.Proofs.Scraper.Path
import PgMetrics.Proofs.Service.Thread

/-! # Scrapes take turns

Whatever clients do, the scrapes that have returned come first, then the one that holds the lock, then
those that wait for it, all in the order of asking.  Each takes one of its paths from the moment at
which the lock was handed to it, which is when it was asked for or when the one before it returned,
whichever is later.  What others do meanwhile leaves a `view` of the world alone.
-/
namespace PgMetrics

open Activity (Path)

variable {σ κ α γ δ : Type}

def ScrapeCall.log (c : ScrapeCall σ) : Log :=
  match c.turn with
  | .waiting => []
  | .running _ _ thread => thread.log
  | .returned report => report.log

theorem ScrapeCall.log_of_running {c : ScrapeCall σ} {since : Nat} {found : World σ}
    {thread : Thread (World σ) Event (Option Unit)} (h : c.turn = .running since found thread) :
    c.log = thread.log := by
  rw [log, h]

theorem Traffic.exists_of_report? {t : Traffic σ} {number : Nat} {report : Report σ}
    (h : t.report? number = some report) :
    ∃ c, t.scrapes[number]? = some c ∧ c.turn = .returned report := by
  unfold Traffic.report? at h
  split at h
  · rename_i hc
    cases h
    exact ⟨_, hc, rfl⟩
  · cases h

theorem getElem?_concat_cases {xs : List α} {x y : α} {n : Nat} (h : (xs ++ [x])[n]? = some y) :
    n < xs.length ∧ xs[n]? = some y ∨ n = xs.length ∧ y = x := by
  by_cases hlt : n < xs.length
  · rw [List.getElem?_append_left hlt] at h
    exact Or.inl ⟨hlt, h⟩
  · have hlast : n = xs.length := by
      obtain ⟨hn, _⟩ := List.getElem?_eq_some_iff.mp h
      rw [List.length_append, List.length_singleton] at hn
      omega
    rw [hlast, List.getElem?_concat_length] at h
    exact Or.inr ⟨hlast, (Option.some.inj h).symm⟩

/-- Scrapes that have returned one after another, from a moment to another. -/
inductive Turns (view : World σ → γ) (s : Service σ κ) (m : Moment σ) :
    List (ScrapeCall σ) → Moment σ → Prop where
  | nil : Turns view s m [] m
  | snoc {past : List (ScrapeCall σ)} {m₁ : Moment σ} {asked ended : Nat} {only : List String}
      {found left : World σ} {log : Log} {value : Option Unit} :
      Turns view s m past m₁ → view m₁.world = view found →
      Path view (s.attempt only) (max m₁.time asked) found log ended left (some value) →
      Turns view s m (past ++ [⟨asked, only, .returned
        (.close (max m₁.time asked) found ended left value log)⟩]) ⟨ended, left⟩

theorem Turns.exists_path {view : World σ → γ} {s : Service σ κ} {m m' : Moment σ}
    {past : List (ScrapeCall σ)} (h : Turns view s m past m') {c : ScrapeCall σ} (hc : c ∈ past) :
    ∃ since found ended left log value,
      c.turn = .returned (.close since found ended left value log) ∧
        Path view (s.attempt c.only) since found log ended left (some value) := by
  induction h with
  | nil => cases hc
  | snoc _ _ hpath ih =>
    rcases List.mem_append.mp hc with hc | hc
    · exact ih hc
    · rw [List.mem_singleton.mp hc]
      exact ⟨_, _, _, _, _, _, rfl, hpath⟩

theorem Turns.last {view : World σ → γ} {s : Service σ κ} {m m' : Moment σ}
    {past : List (ScrapeCall σ)} {c : ScrapeCall σ} (h : Turns view s m (past ++ [c]) m') :
    ∃ report, c.turn = .returned report ∧ m' = ⟨report.ended, report.left⟩ := by
  generalize hall : past ++ [c] = all at h
  cases h with
  | nil => exact absurd hall (by simp)
  | snoc _ _ _ =>
    obtain ⟨_, hc⟩ := List.append_inj' hall rfl
    cases hc
    exact ⟨_, rfl, rfl⟩

/-- The first ones of scrapes that have returned leave what the next one finds. -/
theorem Turns.split {view : World σ → γ} {s : Service σ κ} {m m' : Moment σ}
    {past rest : List (ScrapeCall σ)} (h : Turns view s m (past ++ rest) m') :
    ∃ m₁, Turns view s m past m₁ ∧ (rest = [] → m₁ = m') ∧
      ∀ c ∈ rest.head?, ∃ report, c.turn = .returned report ∧ m₁.time ≤ report.since ∧
        view m₁.world = view report.found := by
  generalize hall : past ++ rest = all at h
  induction h generalizing rest with
  | nil =>
    obtain ⟨rfl, rfl⟩ := List.append_eq_nil_iff.mp hall
    exact ⟨m, .nil, fun _ => rfl, by simp⟩
  | @snoc before m₁ asked ended only found left log value hturns hview hpath ih =>
    rcases List.eq_nil_or_concat rest with rfl | ⟨rest, c, rfl⟩
    · rw [List.append_nil] at hall
      subst hall
      exact ⟨_, hturns.snoc hview hpath, fun _ => rfl, by simp⟩
    · rw [List.concat_eq_append, ← List.append_assoc] at hall
      obtain ⟨hbefore, hc⟩ := List.append_inj' hall rfl
      cases hc
      obtain ⟨m₂, hturns₂, hnil, hhead⟩ := ih hbefore
      refine ⟨m₂, hturns₂, by simp, ?_⟩
      rw [List.concat_eq_append]
      intro c hc
      cases rest with
      | nil =>
        cases hc
        rw [hnil rfl]
        exact ⟨_, rfl, Nat.le_max_left _ _, hview⟩
      | cons c' rest => exact hhead c hc

structure Underway (view : World σ → γ) (s : Service σ κ) (m : Moment σ) (c : ScrapeCall σ)
    (now : Moment σ) (since : Nat) (found : World σ)
    (thread : Thread (World σ) Event (Option Unit)) : Prop where
  turn : c.turn = .running since found thread
  begun : since = max m.time c.asked
  same : view m.world = view found
  due : now.time ≤ thread.due
  follows : thread.Follows view (s.attempt c.only) since found now.world

/-- The scrapes of a traffic begun at a moment: those that have returned, which leave another moment,
the one that holds the lock and those that wait. -/
structure Ordered (view : World σ → γ) (s : Service σ κ) (m : Moment σ) (t : Traffic σ)
    (past : List (ScrapeCall σ)) (m₁ : Moment σ) (current : Option (ScrapeCall σ))
    (future : List (ScrapeCall σ)) : Prop where
  scrapes : t.scrapes = past ++ current.toList ++ future
  turns : Turns view s m past m₁
  time : m₁.time ≤ t.time
  waiting : ∀ c ∈ future, c.turn = .waiting ∧ c.asked ≤ t.time
  queue : t.queue = List.range' (past.length + current.toList.length) future.length
  holder : t.holder = current.map fun _ => past.length
  free : current = none → view m₁.world = view t.world ∧
    ∀ c ∈ future.head?, t.time = max m₁.time c.asked
  taken : ∀ c ∈ current, ∃ since found thread,
    Underway view s m₁ c ⟨t.time, t.world⟩ since found thread
  pings : ∀ c ∈ t.pings, c.thread.rest.Spares view

def Move.Spares (view : World σ → γ) (s : Service σ κ) : Move σ → Prop
  | .askPing => s.ping.Spares view
  | .change server => ∀ w : World σ, view { w with server := server w.server } = view w
  | _ => True

/-- Signs of life leave alone what opening, using and closing a connection leaves alone. -/
theorem Service.spares_ping {view : σ → γ} {view' : World σ → δ} {s : Service σ κ}
    (hview : ∀ (w : World σ) x, view x = view w.server → view' { w with server := x } = view' w)
    (hopen : (s.gateway.open_ s.target).Spares view)
    (hping : ∀ handle, (s.gateway.ping handle).Spares view)
    (hclose : ∀ handle, (s.gateway.close handle).Spares view) : s.ping.Spares view' := by
  have hasking : ∀ {α : Type} {q : Query σ α}, q.Spares view →
      (Scraper.asking q).Spares view' := fun hq =>
    (hq.flatMapEvents _).within fun x w => hview w x
  have hconnect : (s.gateway.connect s.target).Spares view := by
    refine hopen.bind fun answer => ?_
    cases answer <;> exact Activity.spares_pure _
  have hfirst : (Scrape.connect s.gateway 0 s.target).Spares view' := by
    refine Activity.Spares.bind trivial fun _ => (hasking hconnect).bind fun answer => ?_
    cases answer with
    | error failure => exact Activity.spares_pure _
    | ok session => exact Activity.Spares.bind trivial fun _ => Activity.spares_pure _
  refine hfirst.bind fun answer => ?_
  cases answer with
  | error failure => exact Activity.spares_pure _
  | ok session =>
    refine (hasking (hping _)).bind fun verdict => Activity.Spares.bind ?_ fun _ =>
      Activity.spares_pure _
    exact Activity.Spares.bind trivial fun _ => (hasking (hclose _)).bind fun _ =>
      Activity.spares_pure _

/-- Nobody but the holder of the lock touches the caches. -/
theorem Move.spares_caches (s : Service σ κ) (move : Move σ) : move.Spares World.caches s := by
  cases move with
  | askPing =>
    exact Service.spares_ping (fun _ _ _ => rfl) (Activity.spares_const () _)
      (fun _ => Activity.spares_const () _) fun _ => Activity.spares_const () _
  | change server => exact fun _ => rfl
  | _ => trivial

namespace Ordered

variable {view : World σ → γ} {s : Service σ κ} {m m₁ : Moment σ} {t : Traffic σ}
  {past future : List (ScrapeCall σ)} {current : Option (ScrapeCall σ)}

theorem start (m : Moment σ) : Ordered view s m (.start m.time m.world) [] m none [] where
  scrapes := rfl
  turns := .nil
  time := Nat.le_refl _
  waiting := by simp
  queue := rfl
  holder := rfl
  free _ := ⟨rfl, by simp⟩
  taken := by simp
  pings := by simp [Traffic.start]

theorem askScrape (h : Ordered view s m t past m₁ current future) (only : List String) :
    Ordered view s m (t.step s (.askScrape only)) past m₁ current
      (future ++ [{ asked := t.time, only }]) where
  scrapes := by simp [Traffic.step, h.scrapes]
  turns := h.turns
  time := h.time
  waiting := by
    rw [List.forall_mem_append]
    exact ⟨h.waiting, by simp [Traffic.step]⟩
  queue := by
    have hlength : t.scrapes.length =
        past.length + current.toList.length + future.length := by
      rw [h.scrapes, List.length_append, List.length_append]
    rw [Traffic.step, h.queue, hlength, List.length_append, List.length_singleton,
      List.range'_1_concat]
  holder := h.holder
  free hcurrent := by
    obtain ⟨hview, hhead⟩ := h.free hcurrent
    refine ⟨hview, ?_⟩
    cases future with
    | nil =>
      have htime := h.time
      simp [Traffic.step]
      omega
    | cons c rest => exact hhead
  taken := h.taken
  pings := h.pings

theorem askPing (h : Ordered view s m t past m₁ current future) (hping : s.ping.Spares view) :
    Ordered view s m (t.step s .askPing) past m₁ current future where
  scrapes := h.scrapes
  turns := h.turns
  time := h.time
  waiting := h.waiting
  queue := h.queue
  holder := h.holder
  free := h.free
  taken := h.taken
  pings := by
    rw [Traffic.step, List.forall_mem_append]
    exact ⟨h.pings, by simpa using hping⟩

/-- What leaves the view alone and lets no time pass. -/
theorem change (h : Ordered view s m t past m₁ current future) {w : World σ}
    (hw : view t.world = view w) {pings : List (PingCall σ)}
    (hpings : ∀ c ∈ pings, c.thread.rest.Spares view) :
    Ordered view s m { t with world := w, pings } past m₁ current future where
  scrapes := h.scrapes
  turns := h.turns
  time := h.time
  waiting := h.waiting
  queue := h.queue
  holder := h.holder
  free hcurrent := ⟨(h.free hcurrent).1.trans hw, (h.free hcurrent).2⟩
  taken c hc := by
    obtain ⟨since, found, thread, hunderway⟩ := h.taken c hc
    exact ⟨since, found, thread, hunderway.turn, hunderway.begun, hunderway.same, hunderway.due,
      hunderway.follows.others hw⟩
  pings := hpings

theorem ping (h : Ordered view s m t past m₁ current future) (number : Nat) :
    Ordered view s m (t.ping number) past m₁ current future := by
  unfold Traffic.ping
  cases hc : t.pings[number]? with
  | none => exact h
  | some c =>
    have hspares := h.pings c (List.mem_of_getElem? hc)
    obtain ⟨hview, hrest⟩ := Thread.spares_step hspares t.time t.world
    refine h.change hview ?_
    intro c' hc'
    rcases List.mem_or_eq_of_mem_set hc' with hc' | rfl
    · exact h.pings c' hc'
    · exact hrest

/-- Time passes only while nobody waits for a free lock. -/
theorem pass (h : Ordered view s m t past m₁ current future) (span : Nat) :
    Ordered view s m (t.step s (.pass span)) past m₁ current future := by
  rw [Traffic.step]
  by_cases hidle : t.idle span
  · rw [if_pos hidle]
    simp only [Traffic.idle, Bool.and_eq_true, Bool.or_eq_true, List.all_eq_true] at hidle
    obtain ⟨⟨hlock, hscrapes⟩, _⟩ := hidle
    have htime : m₁.time ≤ t.time + span := Nat.le_trans h.time (Nat.le_add_right _ _)
    refine ⟨h.scrapes, h.turns, htime, ?_, h.queue, h.holder, ?_, ?_, h.pings⟩
    · intro c hc
      obtain ⟨hturn, hasked⟩ := h.waiting c hc
      exact ⟨hturn, Nat.le_trans hasked (Nat.le_add_right _ _)⟩
    · rintro rfl
      have hfuture : future = [] := by
        rw [h.holder, h.queue] at hlock
        simpa using hlock
      subst hfuture
      exact ⟨(h.free rfl).1, by simp⟩
    · intro c hc
      obtain ⟨since, found, thread, hunderway⟩ := h.taken c hc
      have hmem : c ∈ t.scrapes := by
        rw [Option.mem_def] at hc
        simp [h.scrapes, hc]
      have hrests := hscrapes c hmem
      simp only [Traffic.rests, hunderway.turn, decide_eq_true_eq] at hrests
      exact ⟨since, found, thread, hunderway.turn, hunderway.begun, hunderway.same, hrests,
        hunderway.follows⟩
  · rw [if_neg hidle]
    exact h

/-- The lock goes to the first one that waits, and its time begins. -/
theorem grant (h : Ordered view s m t past m₁ current future) :
    ∃ current future, Ordered view s m (t.grant s) past m₁ current future := by
  unfold Traffic.grant
  cases current with
  | some c =>
    have hholder := h.holder
    simp only [Option.map_some] at hholder
    simp only [hholder]
    exact ⟨_, _, h⟩
  | none =>
    cases future with
    | nil =>
      have hqueue := h.queue
      simp only [List.length_nil, List.range'_zero] at hqueue
      simp only [h.holder, hqueue, Option.map_none]
      exact ⟨_, _, h⟩
    | cons c rest =>
      have hqueue := h.queue
      simp only [Option.toList_none, List.length_nil, Nat.add_zero, List.length_cons,
        List.range'_succ] at hqueue
      have hscrapes := h.scrapes
      simp only [Option.toList_none, List.append_nil] at hscrapes
      have hc : t.scrapes[past.length]? = some c := by simp [hscrapes]
      simp only [h.holder, hqueue, hc, Option.map_none]
      obtain ⟨hview, hhead⟩ := h.free rfl
      have hsince : t.time = max m₁.time c.asked := hhead c rfl
      let thread : Thread (World σ) Event (Option Unit) := { due := t.time, rest := s.attempt c.only }
      refine ⟨some { c with turn := .running t.time t.world thread }, rest, ?_, h.turns, h.time, ?_,
        ?_, rfl, ?_, ?_, h.pings⟩
      · simp [hscrapes, thread]
      · exact fun c' hc' => h.waiting c' (List.mem_cons_of_mem _ hc')
      · simp
      · rintro ⟨⟩
      · rintro _ ⟨⟩
        exact ⟨t.time, t.world, thread, rfl, hsince, hview, Nat.le_refl _,
          fun es time' s' v hpath => hpath⟩

theorem cases_of_getElem? (h : Ordered view s m t past m₁ current future) {number : Nat}
    {c : ScrapeCall σ} (hc : t.scrapes[number]? = some c) :
    past[number]? = some c ∨ (number = past.length ∧ current = some c) ∨ c ∈ future := by
  rw [h.scrapes, List.append_assoc] at hc
  by_cases hlt : number < past.length
  · rw [List.getElem?_append_left hlt] at hc
    exact Or.inl hc
  · rw [List.getElem?_append_right (by omega)] at hc
    cases current with
    | none => exact Or.inr (Or.inr (List.mem_of_getElem? hc))
    | some c' =>
      cases hn : number - past.length with
      | zero =>
        rw [hn] at hc
        exact Or.inr (Or.inl ⟨by omega, by simpa using hc⟩)
      | succ n =>
        rw [hn] at hc
        exact Or.inr (Or.inr (List.mem_of_getElem? (by simpa using hc)))

/-- Only the holder of the lock runs. -/
theorem eq_of_running (h : Ordered view s m t past m₁ current future) {number : Nat}
    {c : ScrapeCall σ} (hc : t.scrapes[number]? = some c) {since : Nat} {found : World σ}
    {thread : Thread (World σ) Event (Option Unit)} (hturn : c.turn = .running since found thread) :
    number = past.length ∧ current = some c := by
  rcases h.cases_of_getElem? hc with hpast | hcurrent | hfuture
  · obtain ⟨_, _, _, _, _, _, hreturned, _⟩ := h.turns.exists_path (List.mem_of_getElem? hpast)
    rw [hturn] at hreturned
    cases hreturned
  · exact hcurrent
  · have hwaiting := (h.waiting c hfuture).1
    rw [hturn] at hwaiting
    cases hwaiting

theorem getElem?_of_returned (h : Ordered view s m t past m₁ current future) {number : Nat}
    {c : ScrapeCall σ} (hc : t.scrapes[number]? = some c) {report : Report σ}
    (hturn : c.turn = .returned report) : past[number]? = some c := by
  rcases h.cases_of_getElem? hc with hpast | ⟨_, hcurrent⟩ | hfuture
  · exact hpast
  · obtain ⟨_, _, _, hunderway⟩ := h.taken c hcurrent
    have hrunning := hunderway.turn
    rw [hturn] at hrunning
    cases hrunning
  · have hwaiting := (h.waiting c hfuture).1
    rw [hturn] at hwaiting
    cases hwaiting

/-- The holder of the lock goes on along its path, or returns at its end. -/
theorem scrape (h : Ordered view s m t past m₁ current future) (number : Nat) :
    ∃ past m₁ current future, Ordered view s m (t.scrape number) past m₁ current future := by
  have hsame : ∃ past m₁ current future, Ordered view s m t past m₁ current future := ⟨_, _, _, _, h⟩
  unfold Traffic.scrape
  cases hc : t.scrapes[number]? with
  | none => exact hsame
  | some c =>
    obtain ⟨asked, only, turn⟩ := c
    cases turn with
    | waiting => exact hsame
    | returned report => exact hsame
    | running since found thread =>
      obtain ⟨rfl, rfl⟩ := h.eq_of_running hc rfl
      obtain ⟨_, _, _, hturn, hbegun, hview, hdue, hfollows⟩ := h.taken _ rfl
      cases hturn
      have hscrapes := h.scrapes
      rw [Option.toList_some] at hscrapes
      cases hv : thread.value? t.time with
      | some value =>
        simp only [hv]
        obtain ⟨hover, hpath⟩ := hfollows.path hv
        have htime : thread.due = t.time := Nat.le_antisymm hover hdue
        rw [htime, hbegun] at hpath
        refine ⟨_, ⟨t.time, t.world⟩, none, future, ?_, h.turns.snoc hview hpath, Nat.le_refl _,
          h.waiting, ?_, rfl, ?_, by simp, h.pings⟩
        · simp [hscrapes, hbegun]
        · simpa using h.queue
        · refine fun _ => ⟨rfl, fun c hc => ?_⟩
          have hasked := (h.waiting c (List.mem_of_mem_head? hc)).2
          simp only
          omega
      | none =>
        simp only [hv]
        obtain ⟨hfollows', hdue'⟩ := hfollows.step hdue
        refine ⟨past, m₁, some ⟨asked, only, .running since found (thread.step t.time t.world).1⟩,
          future, ?_, h.turns, h.time, h.waiting, ?_, h.holder, by simp, ?_, h.pings⟩
        · simp [hscrapes]
        · simpa using h.queue
        · rintro _ ⟨⟩
          exact ⟨_, _, _, rfl, hbegun, hview, hdue', hfollows'⟩

theorem step (h : Ordered view s m t past m₁ current future) {move : Move σ}
    (hmove : move.Spares view s) :
    ∃ past m₁ current future, Ordered view s m (t.step s move) past m₁ current future := by
  cases move with
  | askScrape only => exact ⟨_, _, _, _, h.askScrape only⟩
  | askPing => exact ⟨_, _, _, _, h.askPing hmove⟩
  | grant =>
    obtain ⟨_, _, hgrant⟩ := h.grant
    exact ⟨_, _, _, _, hgrant⟩
  | scrape number => exact h.scrape number
  | ping number => exact ⟨_, _, _, _, h.ping number⟩
  | pass span => exact ⟨_, _, _, _, h.pass span⟩
  | change server => exact ⟨_, _, _, _, h.change (hmove t.world).symm h.pings⟩

end Ordered

/-- Scrapes take turns whatever clients do. -/
theorem ordered_follow {view : World σ → γ} (s : Service σ κ) (m : Moment σ) {moves : List (Move σ)}
    (hmoves : ∀ move ∈ moves, move.Spares view s) :
    ∃ past m₁ current future,
      Ordered view s m ((Traffic.start m.time m.world).follow s moves) past m₁ current future := by
  unfold Traffic.follow
  suffices h : ∀ t : Traffic σ, (∃ past m₁ current future, Ordered view s m t past m₁ current future) →
      ∃ past m₁ current future, Ordered view s m (moves.foldl (Traffic.step s) t) past m₁ current
        future from h _ ⟨_, _, _, _, Ordered.start m⟩
  induction moves with
  | nil => exact fun _ h => h
  | cons move rest ih =>
    rintro t ⟨_, _, _, _, h⟩
    rw [List.forall_mem_cons] at hmoves
    exact ih hmoves.2 _ (h.step hmoves.1)

/-- Nobody else touches the caches, whatever clients do. -/
theorem ordered_caches (s : Service σ κ) (m : Moment σ) (moves : List (Move σ)) :
    ∃ past m₁ current future, Ordered World.caches s m
      ((Traffic.start m.time m.world).follow s moves) past m₁ current future :=
  ordered_follow s m fun move _ => move.spares_caches s

/-- A sign of life has taken the beginning of one of its paths since it was asked for, and it is over
or not overdue. -/
structure PingCall.Underway (s : Service σ κ) (time : Nat) (c : PingCall σ) : Prop where
  follows : ∀ w : World σ, ∃ found, c.thread.Follows (fun _ => ()) s.ping c.asked found w
  due : c.thread.value? time ≠ none ∨ time ≤ c.thread.due

theorem PingCall.Underway.step {s : Service σ κ} {time : Nat} {c : PingCall σ}
    (h : c.Underway s time) (w : World σ) :
    PingCall.Underway s time { c with thread := (c.thread.step time w).1 } := by
  rcases h.due with hover | hdue
  · rw [c.thread.step_of_over hover]
    exact h
  · obtain ⟨found, hfollows⟩ := h.follows w
    obtain ⟨hfollows', hdue'⟩ := hfollows.step hdue
    exact ⟨fun w' => ⟨found, hfollows'.others rfl⟩, Or.inr hdue'⟩

namespace Traffic

theorem pings_step (s : Service σ κ) {t : Traffic σ} (h : ∀ c ∈ t.pings, c.Underway s t.time)
    (move : Move σ) : ∀ c ∈ (t.step s move).pings, c.Underway s (t.step s move).time := by
  cases move with
  | askScrape only => exact h
  | askPing =>
    refine List.forall_mem_append.mpr ⟨h, ?_⟩
    intro c hc
    rw [List.mem_singleton.mp hc]
    exact ⟨fun w => ⟨w, fun es time' s' v hpath => hpath⟩, Or.inr (Nat.le_refl _)⟩
  | grant =>
    simp only [step, grant]
    split
    · split <;> exact h
    · exact h
  | scrape number =>
    simp only [step, scrape]
    split
    · split <;> exact h
    · exact h
  | ping number =>
    simp only [step, ping]
    cases hc : t.pings[number]? with
    | none => exact h
    | some c =>
      intro c' hc'
      rcases List.mem_or_eq_of_mem_set hc' with hc' | rfl
      · exact h c' hc'
      · exact (h c (List.mem_of_getElem? hc)).step t.world
  | pass span =>
    simp only [step]
    by_cases hidle : t.idle span
    · rw [if_pos hidle]
      simp only [idle, Bool.and_eq_true, List.all_eq_true, Bool.or_eq_true, decide_eq_true_eq]
        at hidle
      intro c hc
      refine ⟨(h c hc).follows, ?_⟩
      rcases hidle.2 c hc with hover | hdue
      · left
        obtain ⟨hrest, hdue⟩ := Thread.over_of_value? (Option.isSome_iff_ne_none.mp hover)
        exact Thread.value?_of_over ⟨hrest, Nat.le_trans hdue (Nat.le_add_right _ _)⟩
      · exact Or.inr hdue
    · rw [if_neg hidle]
      exact h
  | change server => exact h

theorem pings_follow (s : Service σ κ) (m : Moment σ) (moves : List (Move σ)) :
    let t := (Traffic.start m.time m.world).follow s moves
    ∀ c ∈ t.pings, c.Underway s t.time := by
  suffices h : ∀ t : Traffic σ, (∀ c ∈ t.pings, c.Underway s t.time) →
      ∀ c ∈ (moves.foldl (step s) t).pings, c.Underway s (moves.foldl (step s) t).time from
    h _ (by simp [Traffic.start])
  induction moves with
  | nil => exact fun _ h => h
  | cons move rest ih => exact fun t h => ih _ (pings_step s h move)

end Traffic
end PgMetrics
