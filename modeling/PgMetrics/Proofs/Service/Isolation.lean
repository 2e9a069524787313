import PgMetrics.Proofs.Rehearsal.Impartial
import PgMetrics.Proofs.Service.History

/-! # Failures stay where they happen

Whether the run of a scraper succeeds, and whether a connection can be given back, decides nothing but
the report of that run.  Services that resemble each other up to their verdicts make the same
observations after every history, except for the values of these reports; they open the same
connections, run the same scrapers at the same times and remember the same.
-/
namespace PgMetrics

open Activity (Alike)

variable {σ κ ν μ α β : Type} {view : σ → ν} {face : κ → μ}

/-- An observation to whoever does not read whether runs succeed. -/
def Observation.masked (o : Observation) : Observation :=
  if o.name = "postgres_exporter_scraper_success" then { o with value := 0 } else o

namespace Event

def masked : Event → Event
  | .observed o => .observed o.masked
  | e => e

@[simp] theorem aside_masked (es : List Event) : aside (es.map masked) = aside es := by
  induction es with
  | nil => rfl
  | cons e rest ih =>
    rw [List.map_cons, ← List.singleton_append, aside_append, ih, ← List.singleton_append (l := rest),
      aside_append]
    cases e <;> rfl

@[simp] theorem results_masked (es : List Event) :
    results (es.map masked) = (results es).map Observation.masked := by
  rw [results, List.filterMap_map, results, List.map_filterMap]
  congr 1
  funext e
  cases e <;> rfl

@[simp] theorem held_masked (es : List Event) : held (es.map masked) = held es := by
  rw [held, List.foldl_map, held]
  congr 1
  funext held e
  cases e <;> rfl

end Event

theorem Scrape.masked_success (name database : String) (verdict verdict' : Verdict) :
    Event.masked (.observed (success name database verdict)) =
      .masked (.observed (success name database verdict')) := by
  simp only [Event.masked, Observation.masked, success, if_true]

/-- From worlds that look the same, activities come to outcomes that look the same to whoever does not
read whether runs succeed. -/
def Activity.Indistinct (view : σ → ν) (r : α → α → Prop) (a b : Activity (World σ) Event α) : Prop :=
  ∀ time w w', w.seen view = w'.seen view →
    let o := a.run time w
    let o' := b.run time w'
    o.time = o'.time ∧ o.state.seen view = o'.state.seen view ∧
      o.events.map Event.masked = o'.events.map Event.masked ∧ r o.value o'.value

namespace Activity.Indistinct

variable {r : α → α → Prop} {r' : β → β → Prop} {a b : Activity (World σ) Event α}

theorem of_masked
    (h : Alike (World.seen view) r (a.mapEvents Event.masked) (b.mapEvents Event.masked)) :
    Indistinct view r a b := by
  intro time w w' hw
  simpa only [run_mapEvents] using h.run time hw

theorem of_alike (h : Alike (World.seen view) r a b) : Indistinct view r a b :=
  of_masked (h.flatMapEvents _)

theorem bind {next next' : α → Activity (World σ) Event β} (h : Indistinct view r a b)
    (hnext : ∀ x y, r x y → Indistinct view r' (next x) (next' y)) :
    Indistinct view r' (a >>= next) (b >>= next') := by
  intro time w w' hw
  obtain ⟨htime, hstate, hevents, hvalue⟩ := h time w w' hw
  obtain ⟨htime', hstate', hevents', hvalue'⟩ := hnext _ _ hvalue (a.run time w).time _ _ hstate
  simp only [run_bind]
  rw [← htime]
  exact ⟨htime', hstate', by rw [List.map_append, List.map_append, hevents, hevents'], hvalue'⟩

end Activity.Indistinct

/-- What happens to both of two services shows them nothing that tells them apart: a sign of life
takes the same time and a change of the server changes the same. -/
def Operation.Matches (view : σ → ν) (face : κ → μ) (s s' : Service σ κ) : Operation σ → Prop
  | .scrapes _ => True
  | .ping => ∀ k k', face k = face k' →
      Alike view (fun _ _ => True) (s.gateway.ping k) (s'.gateway.ping k')
  | .advance _ => True
  | .change server => ∀ x x', view x = view x' → view (server x) = view (server x')

namespace Service

open Activity (Indistinct)

structure Isolated (view : σ → ν) (s s' : Service σ κ) (ops : List (Operation σ))
    (m m' : Moment σ) : Prop where
  time : (s.reached ops m).time = (s'.reached ops m').time
  server : view (s.reached ops m).world.server = view (s'.reached ops m').world.server
  caches : (s.reached ops m).world.caches = (s'.reached ops m').world.caches
  /-- Everything that is observed, in order, but for whether runs succeeded. -/
  events : ((s.history ops).run m.time m.world).events.map Event.masked =
    ((s'.history ops).run m'.time m'.world).events.map Event.masked
  /-- The connections asked for, opened and given back, the runs of sources with their times, and all
  that sources have made. -/
  aside : Event.aside ((s.history ops).run m.time m.world).events =
    Event.aside ((s'.history ops).run m'.time m'.world).events
  /-- What scrapes return next. -/
  returned : ∀ filters,
    (((s.scrapeInTurn filters).run (s.reached ops m).time (s.reached ops m).world).value).map
        (List.map Observation.masked) =
      (((s'.scrapeInTurn filters).run (s'.reached ops m').time
        (s'.reached ops m').world).value).map (List.map Observation.masked)

section Resembles
variable {s s' : Service σ κ} (h : s.Resembles (fun _ _ => True) view face s')

include h

theorem indistinct_scrape (only : List String) :
    Indistinct view (fun os os' => os.map Observation.masked = os'.map Observation.masked)
      (s.scrape only) (s'.scrape only) := by
  have hcollect := Scrape.alike_collect h trivial Event.masked
    (fun name database verdict verdict' _ => Scrape.masked_success name database verdict verdict')
    only
  have hattempt : Indistinct view Eq (s.attempt only) (s'.attempt only) := by
    refine .of_masked ?_
    rw [attempt, attempt, Activity.mapEvents, Activity.mapEvents, ← Activity.limit_flatMapEvents,
      ← Activity.limit_flatMapEvents, ← h.timeout]
    exact hcollect.limit s.timeout
  intro time w w' hw
  obtain ⟨htime, hstate, hevents, _⟩ := hattempt time w w' hw
  have hheld := congrArg Event.held hevents
  have hresults := congrArg Event.results hevents
  rw [Event.held_masked, Event.held_masked] at hheld
  rw [Event.results_masked, Event.results_masked] at hresults
  simp only [run_scrape]
  refine ⟨htime, hstate, ?_, hresults⟩
  rw [List.map_append, List.map_append, hevents, hheld]

theorem indistinct_scrapeInTurn (filters : List (List String)) :
    Indistinct view (fun vs vs' => vs.map (List.map Observation.masked) =
      vs'.map (List.map Observation.masked)) (s.scrapeInTurn filters)
      (s'.scrapeInTurn filters) := by
  induction filters with
  | nil => exact .of_alike (.done rfl)
  | cons only rest ih =>
    refine (indistinct_scrape h only).bind fun os os' hos => ih.bind fun vs vs' hvs => ?_
    exact .of_alike (.done (by rw [List.map_cons, List.map_cons, hos, hvs]))

theorem alike_ping (hping : ∀ k k', face k = face k' →
    Alike view (fun _ _ => True) (s.gateway.ping k) (s'.gateway.ping k')) :
    Alike (World.seen view) (fun _ _ => True) s.ping s'.ping := by
  have hseen := World.sees_seen view
  rw [ping, ping, ← h.target]
  refine (Scrape.alike_connect h hseen 0 s.target).bind fun x y hxy => ?_
  rcases hxy.cases with ⟨failure, rfl, rfl⟩ | ⟨c, c', rfl, rfl, hlook⟩
  · exact .done trivial
  · refine (Scraper.alike_asking hseen (hping _ _ (congrArg Prod.snd hlook))).bind fun _ _ _ => ?_
    exact (Scrape.alike_close h hseen 0 hlook).bind_eq fun _ => .done trivial

theorem indistinct_operate {op : Operation σ} (hop : op.Matches view face s s') :
    Indistinct view Eq (s.operate op) (s'.operate op) := by
  cases op with
  | scrapes filters =>
    exact (indistinct_scrapeInTurn h filters).bind fun _ _ _ => .of_alike (.pure ())
  | ping => exact .of_alike ((alike_ping h hop).bind fun _ _ _ => .pure ())
  | advance span => exact .of_alike (.pause span)
  | change server =>
    refine .of_alike (.modify fun w w' hw => ?_)
    obtain ⟨hserver, hcaches⟩ := World.seen_eq_iff.mp hw
    exact World.seen_eq_iff.mpr ⟨hop _ _ hserver, hcaches⟩

theorem indistinct_history {ops : List (Operation σ)}
    (hops : ∀ op ∈ ops, op.Matches view face s s') :
    Indistinct view Eq (s.history ops) (s'.history ops) := by
  induction ops with
  | nil => exact .of_alike (.pure ())
  | cons op rest ih =>
    rw [List.forall_mem_cons] at hops
    exact (indistinct_operate h hops.1).bind fun _ _ _ => ih hops.2

/-- After every history of services that differ in their verdicts, nothing else is different. -/
theorem isolated_history {ops : List (Operation σ)}
    (hops : ∀ op ∈ ops, op.Matches view face s s') {m m' : Moment σ} (htime : m.time = m'.time)
    (hworld : m.world.seen view = m'.world.seen view) : Isolated view s s' ops m m' := by
  obtain ⟨time, world⟩ := m
  obtain ⟨time', world'⟩ := m'
  cases htime
  obtain ⟨hafter, hseen, hevents, _⟩ := indistinct_history h hops time world world' hworld
  obtain ⟨hserver, hcaches⟩ := World.seen_eq_iff.mp hseen
  have haside := congrArg Event.aside hevents
  rw [Event.aside_masked, Event.aside_masked] at haside
  refine ⟨hafter, hserver, hcaches, hevents, haside, fun filters => ?_⟩
  obtain ⟨_, _, _, hreturned⟩ := indistinct_scrapeInTurn h filters _ _ _ hseen
  simp only [reached, Activity.Outcome.moment]
  rw [← hafter]
  exact hreturned

end Resembles

section Rehearsal
open Rehearsal

def counting (name : String) (failing : Failing) : Part where
  name := name
  cues := [⟨.gauge, name, [("datname", .database)], .calls, "Runs."⟩]
  failing := failing
  delay := 70

def shaky (failing : Failing) : Service Stage Nat where
  gateway := Stage.gateway
  target := ⟨⟨"localhost", 5432, none, "postgres", none, none, .prefer, none, none⟩, "postgres"⟩
  scrapers := {
    global := [.cached 0 60000 (.direct (counting "locks" failing).source)]
    perDatabase := [.direct (counting "tables" failing).source] }
  excluded := []
  timeout := 200

theorem resembles_shaky (failing failing' : Failing) : (shaky failing).Resembles (fun _ _ => True)
    (Stage.shown Script.lenient id) Stage.faceless (shaky failing') := by
  have hcounting : ∀ name, Scraper.Resembles (fun _ _ => True) (Stage.shown Script.lenient id)
      Stage.faceless (.direct (counting name failing).source)
        (.direct (counting name failing').source) := fun name =>
    .direct rfl fun c c' hlook version => alike_part (p := counting name failing) _
      (fun _ => trivial) (by simp [counting, ValueCue.ofConnection]) (counts_id name) hlook version
  exact {
    target := rfl
    excluded := rfl
    timeout := rfl
    open_ := Stage.alike_open fun _ _ h => h
    announcement := fun k k' _ => Stage.alike_announcement (fun _ _ h => h) k k'
    databases := fun k k' excluded _ => Stage.alike_databases (fun _ _ h => h) k k' excluded
    close := fun k k' _ => Stage.alike_close (fun _ _ h => h) k k'
    global := .cons (.cached 0 60000 (hcounting "locks")) .nil
    perDatabase := .cons (hcounting "tables") .nil }

/-- Nothing fails in one history, and everything in the other. -/
theorem isolated_history_shaky :
    let script : Script := { version := "16.1", databases := ["app", "web"] }
    let m : Moment Stage := ⟨0, ⟨{ script }, .empty⟩⟩
    let m' : Moment Stage := ⟨0, ⟨{ script := { script with failClose := true } }, .empty⟩⟩
    let ops := [.scrapes [[]], .advance 60000, .scrapes [["locks"], []]]
    let view := Stage.shown Script.lenient id
    (shaky .never).Resembles (fun _ _ => True) view Stage.faceless (shaky .always) ∧
      (∀ op ∈ ops, op.Matches view Stage.faceless (shaky .never) (shaky .always)) ∧
      m.time = m'.time ∧ m.world.seen view = m'.world.seen view ∧
      Isolated view (shaky .never) (shaky .always) ops m m' := by
  intro script m m' ops view
  have hresembles := resembles_shaky .never .always
  have hops : ∀ op ∈ ops, op.Matches view Stage.faceless (shaky .never) (shaky .always) := by
    simp [ops, Operation.Matches]
  exact ⟨hresembles, hops, rfl, rfl, isolated_history hresembles hops rfl rfl⟩

end Rehearsal
end Service
end PgMetrics
