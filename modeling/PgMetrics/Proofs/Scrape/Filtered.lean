import PgMetrics.Proofs.Activity.Limit
import PgMetrics.Proofs.Rehearsal.Impartial
import PgMetrics.Proofs.Scrape.Invariant
import PgMetrics.Proofs.Scraper.Limited
import PgMetrics.Proofs.Service.Delivery
import PgMetrics.Proofs.Service.History

/-! # What a filter takes out of a scrape

A filter picks scrapers by the names of their sources, and a scrape with a filter is a scrape of what
it picks.  It takes the runs of all others out of a scrape, with their reports, and nothing else, as
long as these runs do not matter to the rest: they take no time, are behind caches of their own and
leave alone what the answers of the server depend on.

Both scrapes go through the server in step.  Where the first one runs a scraper that the filter leaves
out, the second one stays where it is.
-/
namespace PgMetrics

open Activity (Alike)

variable {σ κ ν μ γ α β : Type} {view : σ → ν} {face : κ → μ}

def ScraperSet.named (set : ScraperSet σ κ) (only : List String) : ScraperSet σ κ :=
  ⟨set.global.filter (Scrape.selected only), set.perDatabase.filter (Scrape.selected only)⟩

def Service.named (s : Service σ κ) (only : List String) : Service σ κ :=
  { s with scrapers := s.scrapers.named only }

def World.seenIn (view : σ → ν) (slots : Nat → Prop) (w : World σ) : ν × (Subtype slots → Cache) :=
  (view w.server, fun k => w.caches.cache k)

section SeenIn
variable {slots : Nat → Prop}

theorem World.seenIn_eq_iff {w w' : World σ} : w.seenIn view slots = w'.seenIn view slots ↔
    view w.server = view w'.server ∧ ∀ k, slots k → w.caches.cache k = w'.caches.cache k := by
  rw [seenIn, seenIn, Prod.mk.injEq, funext_iff, Subtype.forall]

theorem World.sees_seenIn (view : σ → ν) (slots : Nat → Prop) :
    World.Sees (World.seenIn view slots) view slots where
  ofServer hw := (seenIn_eq_iff.mp hw).1
  ofCache hk hw := (seenIn_eq_iff.mp hw).2 _ hk
  setServer hw hx := seenIn_eq_iff.mpr ⟨hx, (seenIn_eq_iff.mp hw).2⟩
  store {w w' k} d e hk hw := by
    obtain ⟨hserver, hcaches⟩ := seenIn_eq_iff.mp hw
    refine seenIn_eq_iff.mpr ⟨hserver, fun j hj => ?_⟩
    by_cases hjk : j = k
    · rw [hjk, Caches.cache_store_self, Caches.cache_store_self, hcaches k hk]
    · rw [Caches.cache_store_of_ne _ _ _ hjk, Caches.cache_store_of_ne _ _ _ hjk, hcaches j hj]

/-- The runs of a scraper with an idle source write no caches but their own. -/
theorem Scraper.run_idle {s : Scraper σ κ} (h : s.source.Idle view)
    (hslots : ∀ k ∈ s.slots, ¬ slots k) (session : Session κ) (version : Version) (time : Nat)
    (w : World σ) : let o := (s.run session version).run time w
      o.time = time ∧ o.state.seenIn view slots = w.seenIn view slots := by
  induction s with
  | direct source =>
    rw [run_direct]
    obtain ⟨htime, hview⟩ := h session version time w.server
    exact ⟨htime, World.seenIn_eq_iff.mpr ⟨hview, fun _ _ => rfl⟩⟩
  | cached slot ttl inner ih =>
    rw [Scraper.slots, List.forall_mem_cons] at hslots
    cases hf : fresh? slot ttl ⟨time, w⟩ session.database with
    | some os =>
      rw [run_cached_of_fresh hf]
      exact ⟨rfl, rfl⟩
    | none =>
      rw [run_cached_of_stale hf]
      obtain ⟨htime, hseen⟩ := ih h hslots.2
      obtain ⟨hserver, hcaches⟩ := World.seenIn_eq_iff.mp hseen
      refine ⟨htime, World.seenIn_eq_iff.mpr ⟨hserver, fun k hk => ?_⟩⟩
      have hne : k ≠ slot := by
        rintro rfl
        exact hslots.1 hk
      exact (Caches.cache_store_of_ne _ _ _ hne).trans (hcaches k hk)

end SeenIn

namespace Scrape

theorem filter_selected_nil (scrapers : List (Scraper σ κ)) :
    scrapers.filter (selected []) = scrapers :=
  List.filter_eq_self.mpr fun _ _ => rfl

theorem selected_iff {only : List String} (honly : only ≠ []) (s : Scraper σ κ) :
    selected only s ↔ s.baseName ∈ only := by
  cases only with
  | nil => exact absurd rfl honly
  | cons first rest => simp [selected]

/-- A scrape with a filter is a scrape of what the filter picks. -/
theorem collect_named (g : Gateway σ κ) (target : Target) (set : ScraperSet σ κ)
    (excluded only : List String) :
    collect g target (set.named only) excluded [] = collect g target set excluded only := by
  simp only [collect, onServer, ScraperSet.named, filter_selected_nil]

theorem selected_congr {only only' : List String} (h : ∀ n, n ∈ only ↔ n ∈ only') :
    (selected only : Scraper σ κ → Bool) = selected only' := by
  have hempty : only.isEmpty = only'.isEmpty := by
    rw [Bool.eq_iff_iff, List.isEmpty_iff, List.isEmpty_iff, List.eq_nil_iff_forall_not_mem,
      List.eq_nil_iff_forall_not_mem]
    exact forall_congr' fun n => not_congr (h n)
  funext s
  rw [selected, selected, hempty, Bool.eq_iff_iff, Bool.or_eq_true, Bool.or_eq_true,
    List.contains_iff_mem, List.contains_iff_mem, h]

def admitted (only : List String) (e : Ascribed) : Bool := e.1.all only.contains

def connections (es : List Ascribed) : List Event :=
  (es.map Prod.snd).filter Event.ofConnection

@[simp] theorem connections_append (es fs : List Ascribed) :
    connections (es ++ fs) = connections es ++ connections fs := by
  simp [connections]

/-- The second outcome is the first one without what a filter leaves out. -/
structure Thinner (seen : World σ → γ) (only : List String) (r : α → β → Prop)
    (o : Activity.Outcome (World σ) Ascribed (Option α))
    (o' : Activity.Outcome (World σ) Ascribed (Option β)) : Prop where
  value : Option.Rel r o.value o'.value
  time : o.time = o'.time
  seen : seen o.state = seen o'.state
  events : o'.events = o.events.filter (admitted only)
  connections : connections o'.events = connections o.events

def Thins (seen : World σ → γ) (only : List String) (r : α → β → Prop)
    (a : Activity (World σ) Ascribed α) (b : Activity (World σ) Ascribed β) : Prop :=
  ∀ span time w w', seen w = seen w' → ((a.limit span).run time w).value ≠ none →
    Thinner seen only r ((a.limit span).run time w) ((b.limit span).run time w')

theorem run_limit_ascribe (owner : Option String) (a : Activity (World σ) Event α)
    (span time : Nat) (w : World σ) :
    ((ascribe owner a).limit span).run time w =
      let o := (a.limit span).run time w
      ⟨o.time, o.state, o.events.map (Prod.mk owner), o.value⟩ := by
  rw [ascribe, Activity.mapEvents, Activity.limit_flatMapEvents]
  exact Activity.run_mapEvents _ _ _ _

section Thins
variable {seen : World σ → γ} {only : List String}

theorem Thins.bind {α' β' : Type} {r : α → α' → Prop} {r' : β → β' → Prop}
    {a : Activity (World σ) Ascribed α} {b : Activity (World σ) Ascribed α'}
    {next : α → Activity (World σ) Ascribed β} {next' : α' → Activity (World σ) Ascribed β'}
    (h : Thins seen only r a b) (hnext : ∀ x y, r x y → Thins seen only r' (next x) (next' y)) :
    Thins seen only r' (a >>= next) (b >>= next') := by
  intro span time w w' hw hvalue
  cases hv : ((a.limit span).run time w).value with
  | none =>
    rw [Activity.run_limit_bind_of_none hv] at hvalue
    exact absurd rfl hvalue
  | some x =>
    have hfirst := h span time w w' hw (by rw [hv]; exact Option.some_ne_none x)
    have hrel := hfirst.value
    rw [hv] at hrel
    cases hv' : ((b.limit span).run time w').value with
    | none =>
      rw [hv'] at hrel
      cases hrel
    | some y =>
      rw [hv'] at hrel
      cases hrel with
      | some hxy =>
        rw [Activity.run_limit_bind_of_some hv] at hvalue ⊢
        rw [Activity.run_limit_bind_of_some hv']
        simp only [← hfirst.time]
        have hsecond := hnext x y hxy _ _ _ _ hfirst.seen hvalue
        exact {
          value := hsecond.value
          time := hsecond.time
          seen := hsecond.seen
          events := by simp only [hfirst.events, hsecond.events, List.filter_append]
          connections := by
            simp only [connections_append, hfirst.connections, hsecond.connections] }

/-- What goes alike is there with and without the filter. -/
theorem Thins.of_alike {r : α → α → Prop} {a b : Activity (World σ) Event α}
    (owner : Option String) (h : Alike seen r a b) (howner : owner.all only.contains) :
    Thins seen only r (ascribe owner a) (ascribe owner b) := by
  intro span time w w' hw _
  obtain ⟨htime, hseen, hevents, hvalue⟩ := (h.limit_rel span).run time hw
  rw [run_limit_ascribe, run_limit_ascribe]
  have hadmitted : ∀ e ∈ ((b.limit span).run time w').events.map (Prod.mk owner),
      admitted only e := by
    intro e he
    obtain ⟨_, _, rfl⟩ := List.mem_map.mp he
    exact howner
  refine ⟨hvalue, htime, hseen, ?_, by simp only [hevents]⟩
  simp only [hevents]
  exact (List.filter_eq_self.mpr hadmitted).symm

end Thins

section Segments
variable {slots : Nat → Prop} {only : List String}

/-- A segment that is not dropped and whose source is idle takes no time and touches no connection. -/
theorem segment_idle {s : Scraper σ κ} (h : s.source.Idle view) (hslots : ∀ k ∈ s.slots, ¬ slots k)
    (session : Session κ) (version : Version) (span : Nat) (m : Moment σ) :
    let o := ((segment s session version).limit span).run m.time m.world
    o.value ≠ none → o.time = m.time ∧ o.state.seenIn view slots = m.world.seenIn view slots ∧
      ∀ e ∈ o.events, ¬ e.ofConnection := by
  intro o hvalue
  cases hv : (((s.run session version).limit span).run m.time m.world).value with
  | none =>
    have ho : o.value = none := by simp only [o, run_limit_segment_of_none hv]
    exact absurd ho hvalue
  | some verdict =>
    have hrun := (Activity.run_limit_of_some (by rw [hv]; exact Option.some_ne_none _)).1
    obtain ⟨htime, hseen⟩ := Scraper.run_idle h hslots session version m.time m.world
    obtain ⟨begun, rest, hevents, hbegun, hrest⟩ := s.events_run_limit session version span m
    simp only [o, run_limit_segment_of_some hv, hevents]
    refine ⟨by rw [hrun]; exact htime, by rw [hrun]; exact hseen, fun e he => ?_⟩
    rcases List.mem_append.mp he with he | he
    · rcases List.mem_append.mp he with he | he
      · rcases hbegun with rfl | rfl
        · cases he
        · rw [List.mem_singleton.mp he]
          exact Bool.false_ne_true
      · have hobservation := hrest e he
        cases e with
        | made o => exact Bool.false_ne_true
        | observed o => exact Bool.false_ne_true
        | _ => cases hobservation
    · rcases List.mem_pair.mp he with rfl | rfl <;> exact Bool.false_ne_true

/-- The filter may skip such a segment. -/
theorem Thins.skip {r : α → α → Prop} {a b : Activity (World σ) Ascribed α}
    (h : Thins (World.seenIn view slots) only r a b) {s : Scraper σ κ}
    (hidle : s.source.Idle view) (hslots : ∀ k ∈ s.slots, ¬ slots k) (hname : s.baseName ∉ only)
    (session : Session κ) (version : Version) :
    Thins (World.seenIn view slots) only r
      (ascribe (some s.baseName) (segment s session version) >>= fun _ => a) b := by
  intro span time w w' hw hvalue
  let o := ((segment s session version).limit span).run time w
  have ho : ((ascribe (some s.baseName) (segment s session version)).limit span).run time w =
      ⟨o.time, o.state, o.events.map (Prod.mk (some s.baseName)), o.value⟩ :=
    run_limit_ascribe _ _ _ _ _
  cases hv : o.value with
  | none =>
    rw [Activity.run_limit_bind_of_none (by rw [ho, hv])] at hvalue
    exact absurd rfl hvalue
  | some u =>
    obtain ⟨htime, hseen, hevents⟩ := segment_idle hidle hslots session version span ⟨time, w⟩
      (by rw [hv]; exact Option.some_ne_none u)
    rw [Activity.run_limit_bind_of_some (by rw [ho, hv]), ho] at hvalue ⊢
    have htime : o.time = time := htime
    simp only [htime, Nat.sub_self, Nat.sub_zero] at hvalue ⊢
    have hrest := h span time o.state w' (hseen.trans hw) hvalue
    have hleft : (o.events.map (Prod.mk (some s.baseName))).filter (admitted only) = [] := by
      rw [List.filter_eq_nil_iff]
      intro e he
      obtain ⟨_, _, rfl⟩ := List.mem_map.mp he
      simpa [admitted] using hname
    have hnone : connections (o.events.map (Prod.mk (some s.baseName))) = [] := by
      rw [connections, List.map_map, List.filter_eq_nil_iff]
      intro _ hmem
      obtain ⟨e, he, rfl⟩ := List.mem_map.mp hmem
      exact hevents e he
    exact {
      value := hrest.value
      time := hrest.time
      seen := hrest.seen
      events := by rw [List.filter_append, hleft, List.nil_append, hrest.events]
      connections := by rw [connections_append, hnone, List.nil_append, hrest.connections] }

theorem thins_segments (honly : only ≠ []) {scrapers : List (Scraper σ κ)}
    (hnamed : ∀ s ∈ scrapers, s.baseName ∈ only →
      s.Resembles Eq view face s ∧ ∀ k ∈ s.slots, slots k)
    (hothers : ∀ s ∈ scrapers, s.baseName ∉ only →
      s.source.Idle view ∧ ∀ k ∈ s.slots, ¬ slots k)
    {c c' : Session κ} (hlook : c.look face = c'.look face) (version : Version) :
    Thins (World.seenIn view slots) only Eq (ascribedSegments c version scrapers)
      (ascribedSegments c' version (scrapers.filter (selected only))) := by
  induction scrapers with
  | nil => exact .of_alike none (.pure ()) rfl
  | cons s rest ih =>
    rw [List.forall_mem_cons] at hnamed hothers
    have hrest := ih hnamed.2 hothers.2
    by_cases hs : s.baseName ∈ only
    · obtain ⟨hresembles, hslots⟩ := hnamed.1 hs
      rw [List.filter_cons_of_pos ((selected_iff honly s).mpr hs)]
      have hblur : ∀ owner name database verdict verdict', verdict = verdict' →
          Prod.snd ((owner, .observed (success name database verdict)) : Ascribed) =
            Prod.snd ((owner, .observed (success name database verdict')) : Ascribed) := by
        rintro owner name database verdict _ rfl
        rfl
      have hsegment := alike_segment (World.sees_seenIn view slots) rfl hblur hresembles hslots
        (some s.baseName) hlook version
      rw [forget_ascribe, forget_ascribe] at hsegment
      refine (Thins.of_alike (some s.baseName) hsegment ?_).bind fun _ _ _ => hrest
      exact List.contains_iff_mem.mpr hs
    · obtain ⟨hidle, hslots⟩ := hothers.1 hs
      rw [List.filter_cons_of_neg (mt (selected_iff honly s).mp hs)]
      exact hrest.skip hidle hslots hs c version

end Segments

section Frame
variable {only : List String} {slots : Nat → Prop} {before : Caches}

structure Confined (only : List String) (slots : Nat → Prop) (before : Caches) (log : List Event)
    (m : Moment σ) : Prop where
  started : ∀ n d t, .started n d t ∈ log → n ∈ only
  caches : ∀ k, ¬ slots k → m.world.caches.cache k = before.cache k

theorem Confined.concat {log : List Event} {m : Moment σ} (h : Confined only slots before log m)
    {e : Event} (he : ∀ n d t, e ≠ .started n d t) : Confined only slots before (log ++ [e]) m where
  started n d t hmem := by
    rcases List.mem_append.mp hmem with hmem | hmem
    · exact h.started n d t hmem
    · exact absurd (List.mem_singleton.mp hmem).symm (he n d t)
  caches := h.caches

theorem invariant_confined {scrapers : List (Scraper σ κ)}
    (hscrapers : ∀ s ∈ scrapers, s.baseName ∈ only ∧ ∀ k ∈ s.slots, slots k) :
    Invariant scrapers (Confined only slots before) (Confined only slots before) where
  weaken := id
  asked h hcaches := ⟨h.started, fun k hk => by rw [hcaches, h.caches k hk]⟩
  reported _ h := h.concat fun _ _ _ => by simp
  requested _ h := h.concat fun _ _ _ => by simp
  opened _ _ _ h := h.concat fun _ _ _ => by simp
  closed _ _ h := h.concat fun _ _ _ => by simp
  segment := by
    intro s hs session version
    obtain ⟨hname, hslots⟩ := hscrapers s hs
    refine keeps_segment (fun _ _ => id) (keeps_of_kept (fun _ _ => id) ?_)
      (fun _ _ _ h => h.concat fun _ _ _ => by simp) fun _ _ _ h => h.concat fun _ _ _ => by simp
    intro span log m h
    obtain ⟨begun, rest, hevents, hbegun, hrest⟩ := s.events_run_limit session version span m
    refine ⟨fun n d t hmem => ?_, fun k hk => ?_⟩
    · rw [hevents, List.mem_append, List.mem_append] at hmem
      rcases hmem with hmem | hmem | hmem
      · exact h.started n d t hmem
      · rcases hbegun with rfl | rfl
        · cases hmem
        · rw [List.mem_singleton, Event.started.injEq] at hmem
          exact hmem.1 ▸ hname
      · exact absurd (hrest _ hmem) Bool.false_ne_true
    · exact (s.cache_run_limit (fun hmem => hk (hslots k hmem)) session version span m).trans
        (h.caches k hk)

end Frame
end Scrape

namespace Service

def ascribedLog (s : Service σ κ) (only : List String) (m : Moment σ) : List Scrape.Ascribed :=
  (((Scrape.ascribedCollect s.gateway s.target s.scrapers s.excluded only).limit s.timeout).run
    m.time m.world).events

theorem run_limit_ascribedCollect (s : Service σ κ) (only : List String) (m : Moment σ) :
    let o := ((Scrape.ascribedCollect s.gateway s.target s.scrapers s.excluded only).limit
      s.timeout).run m.time m.world
    (s.attempt only).run m.time m.world = ⟨o.time, o.state, o.events.map Prod.snd, o.value⟩ := by
  rw [attempt, ← Scrape.forget_ascribedCollect, Activity.mapEvents, Activity.limit_flatMapEvents]
  exact Activity.run_mapEvents _ _ _ _

theorem forget_ascribedLog (s : Service σ κ) (only : List String) (m : Moment σ) :
    (s.ascribedLog only m).map Prod.snd = s.log only m := by
  rw [log, s.run_limit_ascribedCollect only m, ascribedLog]

/-- The scrapers that a filter leaves out do not matter to the rest of a scrape.  They take no time,
every cache belongs to one scraper, and all that is asked and made for the rest depends on a view
which they leave alone. -/
structure Detachable (s : Service σ κ) (only : List String) (view : σ → ν) (face : κ → μ) :
    Prop where
  impartial : (s.named only).Impartial view face
  idle : ∀ r ∈ s.scrapers.all, r.baseName ∉ only → r.source.Idle view
  slots : (s.scrapers.all.flatMap Scraper.slots).Nodup

/-- What a filter comes to in a scrape that would not have been dropped without it. -/
structure Thinned (s : Service σ κ) (only : List String) (m : Moment σ) : Prop where
  whole : ((s.attempt only).run m.time m.world).value = some ()
  /-- Exactly the segments of the scrapers that it does not name are gone. -/
  sink : s.sink [] m = Event.results ((s.ascribedLog [] m).map Prod.snd) ∧ s.sink only m =
    Event.results (((s.ascribedLog [] m).filter (Scrape.admitted only)).map Prod.snd)
  connections : (s.log only m).filter Event.ofConnection = (s.log [] m).filter Event.ofConnection
  started : ∀ n d t, .started n d t ∈ s.log only m → n ∈ only
  caches : ∀ r ∈ s.scrapers.all, r.baseName ∉ only → ∀ k ∈ r.slots,
    ((s.attempt only).run m.time m.world).state.caches.cache k = m.world.caches.cache k
  left : ∀ r ∈ s.scrapers.all, r.baseName ∈ only → ∀ k ∈ r.slots,
    ((s.attempt only).run m.time m.world).state.caches.cache k =
      ((s.attempt []).run m.time m.world).state.caches.cache k
  /-- It is a set of names. -/
  congr : ∀ only', (∀ n, n ∈ only ↔ n ∈ only') → s.scrape only' = s.scrape only
  selects : ∀ r : Scraper σ κ, Scrape.selected only r ↔ r.source.name ∈ only

section Detachable
variable {s : Service σ κ} {only : List String}

/-- A filter adds nothing and puts nothing in another order. -/
theorem Thinned.sublist {m : Moment σ} (h : s.Thinned only m) :
    (s.sink only m).Sublist (s.sink [] m) := by
  rw [h.sink.1, h.sink.2]
  exact ((List.filter_sublist).map _).filterMap _

theorem mem_all_named (honly : only ≠ []) {r : Scraper σ κ} :
    r ∈ (s.scrapers.named only).all ↔ r ∈ s.scrapers.all ∧ r.baseName ∈ only := by
  rw [ScraperSet.all, ScraperSet.named, ← List.filter_append, List.mem_filter, ScraperSet.all,
    Scrape.selected_iff honly]

def namedSlots (s : Service σ κ) (only : List String) (k : Nat) : Prop :=
  ∃ r ∈ s.scrapers.all, r.baseName ∈ only ∧ k ∈ r.slots

theorem Detachable.not_namedSlots (h : s.Detachable only view face) {r : Scraper σ κ}
    (hr : r ∈ s.scrapers.all) (hname : r.baseName ∉ only) {k : Nat} (hk : k ∈ r.slots) :
    ¬ s.namedSlots only k := by
  rintro ⟨r', hr', hname', hk'⟩
  rw [Scraper.eq_of_mem_slots h.slots hr hr' hk hk'] at hname
  exact hname hname'

theorem confined_attempt (honly : only ≠ []) (m : Moment σ) :
    let o := (s.attempt only).run m.time m.world
    Scrape.Confined only (s.namedSlots only) m.world.caches o.events o.moment := by
  let confined : List Event → Moment σ → Prop :=
    Scrape.Confined only (s.namedSlots only) m.world.caches
  have hinvariant : Scrape.Invariant (s.scrapers.named only).all confined confined := by
    refine Scrape.invariant_confined fun r hr => ?_
    obtain ⟨hmem, hname⟩ := (mem_all_named honly).mp hr
    exact ⟨hname, fun k hk => ⟨r, hmem, hname, hk⟩⟩
  have hkeeps : Scrape.Keeps confined confined
      (Scrape.collect s.gateway s.target (s.scrapers.named only) s.excluded []) :=
    hinvariant.collect (fun _ _ h => h.concat fun _ _ _ => by simp)
      (fun _ _ _ h => h.concat fun _ _ _ => by simp)
      (fun _ _ h => h.concat fun _ _ _ => by simp) _ _ _
  rw [Scrape.collect_named] at hkeeps
  exact (hkeeps s.timeout [] m ⟨by simp, fun _ _ => rfl⟩).1

/-- With and without the filter a scrape goes through the server in step. -/
theorem thins_ascribedCollect (honly : only ≠ []) (h : s.Detachable only view face) :
    Scrape.Thins (World.seenIn view (s.namedSlots only)) only Eq
      (Scrape.ascribedCollect s.gateway s.target s.scrapers s.excluded [])
      (Scrape.ascribedCollect s.gateway s.target s.scrapers s.excluded only) := by
  have hseen := World.sees_seenIn view (s.namedSlots only)
  have hresembles := h.impartial.resembles
  have hsegments : ∀ scrapers : List (Scraper σ κ), (∀ r ∈ scrapers, r ∈ s.scrapers.all) →
      ∀ c c' : Session κ, c.look face = c'.look face → ∀ version,
        Scrape.Thins (World.seenIn view (s.namedSlots only)) only Eq
          (Scrape.ascribedSegments c version (scrapers.filter (Scrape.selected [])))
          (Scrape.ascribedSegments c' version (scrapers.filter (Scrape.selected only))) := by
    intro scrapers hall c c' hlook version
    rw [Scrape.filter_selected_nil]
    refine Scrape.thins_segments honly (fun r hr hname => ⟨?_, fun k hk => ?_⟩)
      (fun r hr hname => ⟨h.idle r (hall r hr) hname, fun k hk hslot => ?_⟩) hlook version
    · exact .of_source (h.impartial.sources r ((mem_all_named honly).mpr ⟨hall r hr, hname⟩))
    · exact ⟨r, hall r hr, hname, hk⟩
    · exact h.not_namedSlots (hall r hr) hname hk hslot
  have hparallel : Scrape.Parallel face
      (fun r a b => Scrape.Thins (World.seenIn view (s.namedSlots only)) only r a b)
      s.gateway s.gateway s.excluded s.scrapers s.scrapers [] only := {
    pure := fun hr => .of_alike none (.done hr) rfl
    bind := Scrape.Thins.bind
    observed := fun o => .of_alike none (.emit _) rfl
    connect := fun number target =>
      .of_alike none (Scrape.alike_connect hresembles hseen number target) rfl
    announcement := fun c c' hlook => .of_alike none (Scraper.alike_asking hseen
      (hresembles.announcement _ _ (congrArg Prod.snd hlook))) rfl
    databases := fun c c' hlook => .of_alike none (Scraper.alike_asking hseen
      (hresembles.databases _ _ s.excluded (congrArg Prod.snd hlook))) rfl
    close := fun number c c' hlook =>
      .of_alike none (Scrape.alike_close hresembles hseen number hlook) rfl
    global := hsegments _ fun _ => List.mem_append_left _
    perDatabase := hsegments _ fun _ => List.mem_append_right _ }
  exact hparallel.collect s.target

/-- A filter takes out of a scrape the segments of the scrapers that it does not name, if they do not
matter to the rest, and nothing else. -/
theorem thinned_of_detachable (honly : only ≠ []) (h : s.Detachable only view face) {m : Moment σ}
    (hwhole : ((s.attempt []).run m.time m.world).value = some ()) : s.Thinned only m := by
  have hfull := s.run_limit_ascribedCollect [] m
  have hrun := s.run_limit_ascribedCollect only m
  rw [hfull] at hwhole
  have hthinner := thins_ascribedCollect honly h s.timeout m.time m.world m.world rfl (by
    rw [hwhole]
    exact Option.some_ne_none ())
  have hconfined := confined_attempt (s := s) honly m
  have hevents : s.ascribedLog only m = (s.ascribedLog [] m).filter (Scrape.admitted only) :=
    hthinner.events
  refine {
    whole := ?_
    sink := ⟨?_, ?_⟩
    connections := ?_
    started := hconfined.started
    caches := fun r hr hname k hk => hconfined.caches k ?_
    left := fun r hr hname k hk => ?_
    congr := fun only' hsame => ?_
    selects := fun r => Scrape.selected_iff honly r }
  · rw [hrun, ← hwhole]
    exact (Activity.Alike.eq_of_rel hthinner.value).symm
  · rw [forget_ascribedLog, sink, run_scrape, log]
  · rw [← hevents, forget_ascribedLog, sink, run_scrape, log]
  · rw [← forget_ascribedLog, ← forget_ascribedLog]
    exact hthinner.connections
  · exact h.not_namedSlots hr hname hk
  · rw [hrun, hfull]
    exact ((World.seenIn_eq_iff.mp hthinner.seen).2 k ⟨r, hr, hname, hk⟩).symm
  · simp only [scrape, attempt, Scrape.collect, Scrape.onServer, Scrape.selected_congr hsame]

end Detachable

section Rehearsal
open Rehearsal

theorem detachable_of_parts {s : Service Stage Nat} {only : List String} (honly : only ≠ [])
    (hs : s.gateway = Stage.gateway)
    (hparts : ∀ r ∈ s.scrapers.all, ∃ p : Part, r.source = p.source ∧ p.delay = 0 ∧
      ∀ c ∈ p.cues, c.value.ofConnection = false)
    (hslots : (s.scrapers.all.flatMap Scraper.slots).Nodup) :
    s.Detachable only (Stage.shown id fun t => only.map t.get?) Stage.faceless where
  impartial := by
    refine impartial_of_counts hs fun r hr => ?_
    obtain ⟨hmem, hname⟩ := (mem_all_named honly).mp hr
    obtain ⟨p, hsource, _, hcues⟩ := hparts r hmem
    rw [Scraper.baseName, hsource] at hname
    exact ⟨p, hsource, hcues, counts_map hname⟩
  idle r hr hname := by
    obtain ⟨p, hsource, hdelay, _⟩ := hparts r hr
    rw [Scraper.baseName, hsource] at hname
    rw [hsource]
    exact idle_part hdelay (hides_map hname)
  slots := hslots

def brief (name : String) : Part where
  name := name
  cues := [⟨.gauge, name, [("datname", .database)], .calls, "Runs."⟩]

def layered : Service Stage Nat where
  gateway := Stage.gateway
  target := ⟨⟨"localhost", 5432, none, "postgres", none, none, .prefer, none, none⟩, "postgres"⟩
  scrapers := {
    global := [.cached 0 60000 (.direct (brief "locks").source), .direct (brief "archiver").source]
    perDatabase := [.direct (brief "tables").source,
      .cached 1 60000 (.cached 2 30000 (.direct (brief "sizes").source))] }
  excluded := []
  timeout := 1000

/-- The sizes of two databases and the archiver, asked for twice. -/
theorem thinned_of_detachable_layered :
    let only := ["sizes", "archiver", "sizes"]
    let m : Moment Stage :=
      ⟨0, ⟨{ script := { version := "16.1", databases := ["app", "web"] } }, .empty⟩⟩
    only ≠ [] ∧
      layered.Detachable only (Stage.shown id fun t => only.map t.get?) Stage.faceless ∧
      ((layered.attempt []).run m.time m.world).value = some () ∧ layered.Thinned only m := by
  intro only m
  have honly : only ≠ [] := by decide
  have hparts : ∀ r ∈ layered.scrapers.all, ∃ p : Part, r.source = p.source ∧ p.delay = 0 ∧
      ∀ c ∈ p.cues, c.value.ofConnection = false := by
    have hbrief : ∀ name, ∀ c ∈ (brief name).cues, c.value.ofConnection = false := by
      simp [brief, ValueCue.ofConnection]
    intro r hr
    simp only [layered, ScraperSet.all, List.cons_append, List.nil_append, List.mem_cons,
      List.not_mem_nil, or_false] at hr
    rcases hr with rfl | rfl | rfl | rfl
    all_goals exact ⟨_, rfl, rfl, hbrief _⟩
  have hdetachable := detachable_of_parts honly (s := layered) rfl hparts (by decide)
  have hwhole : ((layered.attempt []).run m.time m.world).value = some () := by decide +kernel
  exact ⟨honly, hdetachable, hwhole, thinned_of_detachable honly hdetachable hwhole⟩

end Rehearsal

def severed : Service Bool Unit where
  gateway := {
    open_ := fun _ => .done (.ok ())
    announcement := fun _ => .done (.ok "16.1")
    databases := fun _ _ => .done (.ok [])
    ping := fun _ => .done (.ok ())
    close := fun _ => .done (.ok ()) }
  target := ⟨⟨"localhost", 5432, none, "postgres", none, none, .prefer, none, none⟩, "postgres"⟩
  scrapers := {
    global := [
      .direct { name := "recovery", run := fun _ _ => do
                  .modify fun _ => true
                  return .error ⟨"connection lost", []⟩ },
      .direct { name := "locks", run := fun _ _ => do
                  if ← .state then return .error ⟨"connection lost", []⟩
                  .emit ⟨.gauge, "postgres_locks_count", [], 3, "Locks."⟩
                  return .ok () }] }
  excluded := []
  timeout := 10000

/-- Without the first source the second one makes an observation which it does not make after it. -/
theorem severed_not_thinned :
    let m : Moment Bool := ⟨0, ⟨false, .empty⟩⟩
    let full := (severed.attempt []).run m.time m.world
    let filtered := (severed.attempt ["locks"]).run m.time m.world
    full.value = some () ∧ filtered.value = some () ∧ full.time = m.time ∧
      filtered.time = m.time ∧ ¬ (severed.sink ["locks"] m).Sublist (severed.sink [] m) ∧
      ¬ severed.Thinned ["locks"] m := by
  intro m full filtered
  have hsublist : ¬ (severed.sink ["locks"] m).Sublist (severed.sink [] m) := by
    have hnames : ¬ ((severed.sink ["locks"] m).map Observation.name).Sublist
        ((severed.sink [] m).map Observation.name) := by
      decide +kernel
    exact fun h => hnames (h.map Observation.name)
  exact ⟨rfl, rfl, rfl, rfl, hsublist, fun h => hsublist h.sublist⟩

end Service
end PgMetrics
