import PgMetrics.Proofs.Scrape.Along

/-! # Connections and the gateway

The gateway opens a connection for the database that it was requested for; the connection is used,
and the gateway is asked to close the very handle that it has opened.  `Line` says so of one
connection, `Walk` of those that follow each other, and `Talk` of a scrape, whose first connection
lasts around all others.  A scrape may be dropped anywhere, and what others do to the server
meanwhile leaves alone what a `view` shows.
-/
namespace PgMetrics

open Activity (Path)

variable {σ κ α β γ δ : Type}

def Event.ofLine : Event → Bool
  | .requested _ | .opened _ _ | .closed _ | .dropped _ => true
  | _ => false

namespace Scrape

abbrev Goes (view : World σ → γ) (a : Activity (World σ) Event α) (m : Moment σ) (log : Log)
    (v : Option α) (m' : Moment σ) : Prop :=
  Path view a m.time m.world log m'.time m'.world v

/-- A gateway is asked at a moment: its query goes its way on the server up to its answer, or as far as
it has come when the scrape is dropped. -/
def Asked (look : σ → γ) (q : Query σ α) (m : Moment σ) (answer : Option (Except Failure α))
    (m' : Moment σ) : Prop :=
  Path look q m.time m.world.server [] m'.time m'.world.server answer

/-- What happens on a connection.  Its handle is the one with which the gateway has opened it, for the
database that was requested, and the one that the gateway is asked to close after its use. -/
inductive Line (look : σ → γ) (g : Gateway σ κ) (number : Nat) (target : Target)
    (use : κ → Moment σ → Log → Option β → Moment σ → Prop) :
    Moment σ → Log → Option (Except Failure β) → Moment σ → Prop where
  | unanswered {m m' : Moment σ} :
      Asked look (g.open_ target) m none m' →
      Line look g number target use m [(m.time, .requested target.database)] none m'
  | refused {m m' : Moment σ} {failure : Failure} :
      Asked look (g.open_ target) m (some (.error failure)) m' →
      Line look g number target use m [(m.time, .requested target.database)]
        (some (.error failure)) m'
  | dropped {m m₁ m' : Moment σ} {handle : κ} {log : Log} :
      Asked look (g.open_ target) m (some (.ok handle)) m₁ →
      use handle m₁ log none m' →
      Line look g number target use m
        ([(m.time, .requested target.database), (m₁.time, .opened number target.database)] ++ log)
        none m'
  | closed {m m₁ m₂ m' : Moment σ} {handle : κ} {log : Log} {x : β}
      {farewell : Option (Except Failure Unit)} :
      Asked look (g.open_ target) m (some (.ok handle)) m₁ →
      use handle m₁ log (some x) m₂ →
      Asked look (g.close handle) m₂ farewell m' →
      Line look g number target use m
        ([(m.time, .requested target.database), (m₁.time, .opened number target.database)] ++ log ++
          [(m₂.time, .closed number)])
        (farewell.map fun _ => .ok x) m'

structure Quiet (m : Moment σ) (log : Log) (m' : Moment σ) : Prop where
  time : m.time ≤ m'.time
  silent : ∀ e ∈ log, e.2.ofLine = false

/-- The connections of a walk: each is given back before the next one is requested, and the first one
that cannot be opened is the last. -/
inductive Walk (look : σ → γ) (g : Gateway σ κ) (target : Target) :
    Nat → Moment σ → Log → Option Unit → Moment σ → Prop where
  | over {number : Nat} {m m' : Moment σ} :
      m'.time = m.time → Walk look g target number m [] (some ()) m'
  | refused {number : Nat} {d : String} {m m' : Moment σ} {log : Log} {failure : Failure} :
      Line look g number (target.withDatabase d) (fun _ m log (_ : Option Unit) m' => Quiet m log m')
        m log (some (.error failure)) m' →
      Walk look g target number m log (some ()) m'
  | dropped {number : Nat} {d : String} {m m' : Moment σ} {log : Log} :
      Line look g number (target.withDatabase d) (fun _ m log (_ : Option Unit) m' => Quiet m log m')
        m log none m' →
      Walk look g target number m log none m'
  | next {number : Nat} {d : String} {m m₁ m' : Moment σ} {log log' : Log} {v : Option Unit} :
      Line look g number (target.withDatabase d) (fun _ m log (_ : Option Unit) m' => Quiet m log m')
        m log (some (.ok ())) m₁ →
      Walk look g target (number + 1) m₁ log' v m' →
      Walk look g target number m (log ++ log') v m'

inductive Home (look : σ → γ) (g : Gateway σ κ) (target : Target) :
    Moment σ → Log → Option Unit → Moment σ → Prop where
  | stays {m m' : Moment σ} {log : Log} {v : Option Unit} :
      Quiet m log m' → Home look g target m log v m'
  | walks {m m₁ m' : Moment σ} {log log' : Log} {v : Option Unit} :
      Quiet m log m₁ → Walk look g target 1 m₁ log' v m' →
      Home look g target m (log ++ log') v m'

inductive Talk (look : σ → γ) (g : Gateway σ κ) (target : Target) :
    Moment σ → Log → Option Unit → Moment σ → Prop where
  | refused {m m' : Moment σ} {log : Log} {failure : Failure} {o : Observation} :
      Line look g 0 target (fun _ => Home look g target) m log (some (.error failure)) m' →
      Talk look g target m (log ++ [(m'.time, .observed o)]) (some ()) m'
  | dropped {m m' : Moment σ} {log : Log} :
      Line look g 0 target (fun _ => Home look g target) m log none m' →
      Talk look g target m log none m'
  | held {m m' : Moment σ} {log : Log} :
      Line look g 0 target (fun _ => Home look g target) m log (some (.ok ())) m' →
      Talk look g target m log (some ()) m'

section
variable {view : World σ → γ} {look : σ → δ} {g : Gateway σ κ} {target : Target} {number : Nat}
  {m m₁ m' : Moment σ} {log log' : Log}

theorem Goes.bind_cases {a : Activity (World σ) Event α} {next : α → Activity (World σ) Event β}
    {v : Option β} (h : Goes view (a >>= next) m log v m') :
    v = none ∧ Goes view a m log none m' ∨ ∃ log₁ m₁ x log₂, Goes view a m log₁ (some x) m₁ ∧
      Goes view (next x) m₁ log₂ v m' ∧ log = log₁ ++ log₂ := by
  rcases Path.bind_cases h with hcut | ⟨log₁, t₁, w₁, x, log₂, hfirst, hrest, hlog⟩
  · exact Or.inl hcut
  · exact Or.inr ⟨log₁, ⟨t₁, w₁⟩, x, log₂, hfirst, hrest, hlog⟩

theorem Asked.others_after {q : Query σ α} {answer : Option (Except Failure α)}
    (h : Asked look q m answer m₁) (htime : m'.time = m₁.time)
    (hserver : look m₁.world.server = look m'.world.server) : Asked look q m answer m' := by
  rw [Asked, htime]
  exact Path.others_after h hserver

theorem Line.others_after {use : κ → Moment σ → Log → Option β → Moment σ → Prop}
    {r : Except Failure β} (h : Line look g number target use m log (some r) m₁)
    (htime : m'.time = m₁.time) (hserver : look m₁.world.server = look m'.world.server) :
    Line look g number target use m log (some r) m' := by
  generalize hanswer : some r = answer at h
  cases h with
  | unanswered | dropped => cases hanswer
  | refused hasked => exact .refused (hasked.others_after htime hserver)
  | closed hopened hused hclosed => exact .closed hopened hused (hclosed.others_after htime hserver)

section
variable (hlook : ∀ w w', view w = view w' → look w.server = look w'.server)

include hlook

section Line
variable (use : κ → Moment σ → Log → Option β → Moment σ → Prop)
  {body : Session κ → Activity (World σ) Event β}
  (huse : ∀ {handle m log m' v},
    Goes view (body ⟨target.database, handle⟩) m log v m' → use handle m log v m')

include huse

end Line
end

theorem Quiet.nil (htime : m'.time = m.time) : Quiet m [] m' :=
  ⟨Nat.le_of_eq htime.symm, by simp⟩

theorem Quiet.event {e : Event} (he : e.ofLine = false) : Quiet m [(m.time, e)] m :=
  ⟨Nat.le_refl _, by simp [he]⟩

theorem Quiet.trans (h : Quiet m log m₁) (h' : Quiet m₁ log' m') : Quiet m (log ++ log') m' :=
  ⟨h.time.trans h'.time, List.forall_mem_append.mpr ⟨h.silent, h'.silent⟩⟩

theorem Home.after {v : Option Unit} (h : Quiet m log m₁) (h' : Home look g target m₁ log' v m') :
    Home look g target m (log ++ log') v m' := by
  cases h' with
  | stays hquiet => exact .stays (h.trans hquiet)
  | walks hquiet hwalk =>
    rw [← List.append_assoc]
    exact .walks (h.trans hquiet) hwalk

section
variable (hview : ∀ w w', view w = view w' → w.caches = w'.caches)
  (hlook : ∀ w w', view w = view w' → look w.server = look w'.server)

section
include hview

theorem quiet_of_run {s : Scraper σ κ} {session : Session κ} {version : Version} {v : Option Verdict}
    (h : Goes view (s.run session version) m log v m') : Quiet m log m' := by
  obtain ⟨begun, rest, rfl, hbegun, hrest⟩ := Scraper.path_events hview h
  refine ⟨h.le, List.forall_mem_append.mpr ⟨?_, fun e he => ?_⟩⟩
  · rcases hbegun with rfl | rfl <;> simp [Event.ofLine]
  · have hrun := hrest e he
    cases he' : e.2 <;> simp_all [Event.ofRun, Event.ofLine]

end

include hview hlook

end
end
end Scrape
end PgMetrics
