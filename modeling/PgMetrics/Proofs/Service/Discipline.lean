import PgMetrics.Proofs.Scrape.Along
import PgMetrics.Proofs.Scrape.Lines
import PgMetrics.Proofs.Service.Traffic

/-! # Connections in traffic

Whatever clients ask for, whatever the server answers and wherever scrapes are dropped: no scrape and
no sign of life loses a connection or gives one back twice, and each begins with the database that
the service was configured for.  What their logs say of connections is what they have asked of the
gateway, which is handed back the handles that it has given out.
-/
namespace PgMetrics

open Activity (Path)
open Event (held)
open Scrape (Asked Goes Line)

variable {σ κ γ δ : Type}

namespace Scrape

/-- A scrape follows the steps of its connections. -/
theorem maintained_steps {view : World σ → γ} (hview : ∀ w w', view w = view w' → w.caches = w'.caches)
    (g : Gateway σ κ) (target : Target) (scrapers : List (Scraper σ κ)) :
    Maintained view g target scrapers (fun c log _ => Contact.Steps target.database log.events c)
      fun log _ => ∃ c, Contact.Steps target.database log.events c where
  caches := hview
  weaken h := ⟨_, h⟩
  stable h _ _ := h
  step h hstep := by
    rw [Log.events_append]
    exact h.snoc hstep
  segment s _ c session version hc _ := by
    intro log m es m' v hsteps hpath
    have hrun : ∀ {run : Log} {w : World σ} {v : Option Verdict},
        Path view (s.run session version) m.time m.world run m'.time w v →
        Contact.Steps target.database (log ++ run).events c := by
      intro run w v hpath
      obtain ⟨begun, rest, rfl, hbegun, hrest⟩ := Scraper.path_events hview hpath
      rw [Log.events_append]
      refine hsteps.hears fun e he => ⟨session.database, hc, ?_⟩
      obtain ⟨e', he', rfl⟩ := List.mem_map.mp he
      rcases List.mem_append.mp he' with he' | he'
      · rcases hbegun with rfl | rfl
        · cases he'
        · rw [List.mem_singleton.mp he']
          exact Or.inr ⟨_, _, rfl⟩
      · exact Or.inl (hrest e' he')
    rcases path_segment_cases hpath with ⟨rfl, hcut⟩ | ⟨run, w₁, verdict, rfl, _, hreturned, rfl⟩
    · exact ⟨c, hrun hcut⟩
    · change Contact.Steps _ _ _
      rw [← List.append_assoc, Log.events_append]
      refine (hrun hreturned).hears fun e he => ⟨session.database, hc, Or.inl ?_⟩
      simp only [Log.events, List.map_cons, List.map_nil, List.mem_cons, List.not_mem_nil, or_false]
        at he
      rcases he with rfl | rfl <;> rfl

end Scrape

def ScrapeCall.events (c : ScrapeCall σ) : List Event := c.log.events

def PingCall.events (c : PingCall σ) : List Event := Log.events c.thread.log

/-- What a scrape has to do with the gateway, as far as it has come: when it returns it drops the
connections that it still holds. -/
def ScrapeCall.Talks (s : Service σ κ) (c : ScrapeCall σ) : Prop :=
  match c.turn with
  | .waiting => True
  | .running since found thread => ∃ later value m',
      Scrape.Talk (fun _ => ()) s.gateway s.target ⟨since, found⟩ (thread.log ++ later) value m'
  | .returned report => ∃ log value,
      Scrape.Talk (fun _ => ()) s.gateway s.target ⟨report.since, report.found⟩ log value
        ⟨report.ended, report.left⟩ ∧
      report.whole = value.isSome ∧
      report.log = log ++ (held log.events).map (report.ended, .dropped ·)

namespace Service

def courtesy (s : Service σ κ) : List Event :=
  [.requested s.target.database, .opened 0 s.target.database, .closed 0]

/-- What a sign of life has to do with the gateway: it is asked for one on a connection of its own. -/
def LifeSign (look : σ → γ) (s : Service σ κ) : Moment σ → Log →
    Option (Except Failure Verdict) → Moment σ → Prop :=
  Line look s.gateway 0 s.target fun handle m log verdict m' =>
    log = [] ∧ Asked look (s.gateway.ping handle) m verdict m'

/-- What a sign of life comes to: why there is no connection, or what was answered on it. -/
def told : Except Failure Verdict → Verdict
  | .error failure => .error failure
  | .ok verdict => verdict

def signs (s : Service σ κ) : Except Failure Verdict → List Event
  | .error _ => [.requested s.target.database]
  | .ok _ => s.courtesy

end Service

namespace Traffic

structure Settled (s : Service σ κ) (c : ScrapeCall σ) : Prop where
  disciplined : Scrape.Disciplined s.target.database c.events
  returned : ∀ report, c.turn = .returned report →
    held c.events = [] ∧ (report.whole → Scrape.Cleared c.events)
  talks : c.Talks s

structure Courteous (s : Service σ κ) (time : Nat) (c : PingCall σ) : Prop where
  events : c.events <+: s.courtesy
  talks : ∃ found later r m', s.LifeSign (fun _ => ()) ⟨c.asked, found⟩ (c.thread.log ++ later) r m'
  answered : ∀ v, c.thread.value? time = some v → ∃ found left r,
    s.LifeSign (fun _ => ()) ⟨c.asked, found⟩ c.thread.log (some r) ⟨c.thread.due, left⟩ ∧
      v = Service.told r ∧ c.events = s.signs r

structure Disciplined (s : Service σ κ) (t : Traffic σ) : Prop where
  scrapes : ∀ c ∈ t.scrapes, Settled s c
  pings : ∀ c ∈ t.pings, Courteous s t.time c

section Ordered
variable {s : Service σ κ} {m m₁ : Moment σ} {t : Traffic σ} {past future : List (ScrapeCall σ)}
  {current : Option (ScrapeCall σ)} (h : Ordered World.caches s m t past m₁ current future)
  {c : ScrapeCall σ}

include h

end Ordered

end Traffic
end PgMetrics
