import PgMetrics.Proofs.Scraper.Run
import PgMetrics.Service.Basic

/-! # Histories of a service

A service is asked for scrapes, several of them at a time or one, and for signs of life; in between
time passes and the server changes.  What every scrape keeps, and what neither touching connections
nor the passing of time nor a change of the server can break, holds after every history.

Scrapes asked for together wait for each other.  A sign of life does not wait for a scrape, but it
neither reads nor writes what scrapes remember.
-/
namespace PgMetrics

variable {σ κ : Type}

inductive Operation (σ : Type) where
  /-- Scrapes asked for at the same time, one for each filter. -/
  | scrapes (filters : List (List String))
  | ping
  | advance (span : Nat)
  | change (server : σ → σ)

def Event.ofConnection : Event → Bool
  | .requested _ | .opened _ _ | .closed _ => true
  | _ => false

namespace Service

def operate (s : Service σ κ) : Operation σ → Activity (World σ) Event Unit
  | .scrapes filters => do
    let _ ← s.scrapeInTurn filters
    return ()
  | .ping => do
    let _ ← s.ping
    return ()
  | .advance span => .pause span
  | .change server => .modify fun w => { w with server := server w.server }

def history (s : Service σ κ) : List (Operation σ) → Activity (World σ) Event Unit
  | [] => return ()
  | op :: rest => do
    s.operate op
    s.history rest

def reached (s : Service σ κ) (ops : List (Operation σ)) (m : Moment σ) : Moment σ :=
  ((s.history ops).run m.time m.world).moment

theorem run_scrape (s : Service σ κ) (only : List String) (time : Nat) (w : World σ) :
    (s.scrape only).run time w =
      let o := (s.attempt only).run time w
      ⟨o.time, o.state, o.events ++ (Event.held o.events).map .dropped,
        Event.results o.events⟩ := by
  simp [scrape, Event.results]

theorem run_ping (s : Service σ κ) (time : Nat) (w : World σ) :
    let o := s.ping.run time w
    (∀ e ∈ o.events, e.ofConnection) ∧ o.state.caches = w.caches := by
  simp only [ping, Scrape.connect, Activity.run_bind, Activity.run_emit, Scraper.run_asking]
  cases ((s.gateway.connect s.target).run time w.server).value with
  | error failure => simp [Event.ofConnection]
  | ok session => simp [Scrape.close, Event.ofConnection]

section Keeps
variable {s : Service σ κ} {kept : List Event → Moment σ → Prop}
  (hidle : ∀ log m m' es, kept log m → (∀ e ∈ es, Event.ofConnection e) →
    m'.world.caches = m.world.caches → kept (log ++ es) m')
  (hscrape : ∀ only log m, kept log m → let o := (s.scrape only).run m.time m.world
    kept (log ++ o.events) o.moment)

include hscrape in
theorem scrapeInTurn_keeps (filters : List (List String)) (log : List Event) (m : Moment σ)
    (h : kept log m) : let o := (s.scrapeInTurn filters).run m.time m.world
    kept (log ++ o.events) o.moment := by
  induction filters generalizing log m with
  | nil => simpa [scrapeInTurn] using h
  | cons only rest ih =>
    have hrest := ih _ _ (hscrape only log m h)
    simpa only [scrapeInTurn, Activity.run_bind, Activity.run_pure, List.append_nil,
      List.append_assoc, Activity.Outcome.moment] using hrest

include hidle hscrape in
theorem operate_keeps (op : Operation σ) (log : List Event) (m : Moment σ) (h : kept log m) :
    let o := (s.operate op).run m.time m.world
    kept (log ++ o.events) o.moment := by
  cases op with
  | scrapes filters =>
    simpa [operate, Activity.Outcome.moment] using scrapeInTurn_keeps hscrape filters log m h
  | ping =>
    obtain ⟨hevents, hcaches⟩ := s.run_ping m.time m.world
    simpa [operate, Activity.Outcome.moment] using hidle log m ⟨_, _⟩ _ h hevents hcaches
  | advance span =>
    have hafter := hidle log m ⟨m.time + span, m.world⟩ [] h (by simp) rfl
    simpa only [operate, Activity.pause, Activity.run, Activity.Outcome.moment] using hafter
  | change server =>
    have hafter := hidle log m ⟨m.time, { m.world with server := server m.world.server }⟩ [] h
      (by simp) rfl
    simpa only [operate, Activity.run_modify, Activity.Outcome.moment] using hafter

include hidle hscrape in
/-- What every scrape keeps holds after every history. -/
theorem history_keeps (ops : List (Operation σ)) (log : List Event) (m : Moment σ)
    (h : kept log m) : let o := (s.history ops).run m.time m.world
    kept (log ++ o.events) o.moment := by
  induction ops generalizing log m with
  | nil => simpa [history] using h
  | cons op rest ih =>
    have hrest := ih _ _ (operate_keeps hidle hscrape op log m h)
    simpa only [history, Activity.run_bind, List.append_assoc, Activity.Outcome.moment]
      using hrest

end Keeps

end Service
end PgMetrics
