import PgMetrics.Proofs.Scraper.Run
import PgMetrics.Rehearsal.Part
import PgMetrics.Service.Basic

/-! # What a dropped scrape keeps

An observation is pushed when its source makes it and delivered when it reaches the result.  A
source delivers at once, a cache only when the run behind it has returned.  So a scrape that is
dropped loses exactly what had been pushed in the run of a cached scraper that it was dropped in;
without such a run it returns whatever was pushed, in order.
-/
namespace PgMetrics

variable {σ κ α β : Type}

namespace Event

def made? : Event → Option Observation
  | .made o => some o
  | _ => none

def pushes (events : List Event) : List Observation := events.filterMap made?

@[simp] theorem pushes_nil : pushes [] = [] := rfl

@[simp] theorem pushes_append (es fs : List Event) : pushes (es ++ fs) = pushes es ++ pushes fs :=
  List.filterMap_append

@[simp] theorem pushes_aside (es : List Event) : pushes (aside es) = pushes es := by
  rw [pushes, aside, List.filterMap_filter, pushes]
  congr 1
  funext e
  cases e <;> rfl

end Event

/-- Every observation that is owed or made is observed later, and they are observed in order. -/
inductive Delivered : List Observation → List Event → Prop where
  | nil : Delivered [] []
  | made {owed : List Observation} {o : Observation} {rest : List Event} :
      Delivered (owed ++ [o]) rest → Delivered owed (.made o :: rest)
  | paid {owed : List Observation} {o : Observation} {rest : List Event} :
      Delivered owed rest → Delivered (o :: owed) (.observed o :: rest)
  | passed {owed : List Observation} {e : Event} {rest : List Event} :
      e.made? = none → Delivered owed rest → Delivered owed (e :: rest)

namespace Delivered

variable {owed : List Observation} {es fs : List Event}

theorem append (h : Delivered owed es) (hfs : Delivered [] fs) : Delivered owed (es ++ fs) := by
  induction h with
  | nil => exact hfs
  | made _ ih => exact .made ih
  | paid _ ih => exact .paid ih
  | passed he _ ih => exact .passed he ih

/-- Later events pay for what the earlier ones have left. -/
theorem of_append (h : Delivered owed (es ++ fs)) : ∃ left, Delivered left fs := by
  induction es generalizing owed with
  | nil => exact ⟨owed, h⟩
  | cons e rest ih =>
    cases h with
    | made h => exact ih h
    | paid h => exact ih h
    | passed _ h => exact ih h

theorem sublist (h : Delivered owed es) :
    (owed ++ Event.pushes es).Sublist (Event.results es) := by
  induction h with
  | nil => exact List.Sublist.slnil
  | made _ ih =>
    rw [List.append_assoc] at ih
    exact ih
  | paid _ ih => exact ih.cons_cons _
  | @passed owed e rest he _ ih =>
    have hpushes : Event.pushes (e :: rest) = Event.pushes rest := by
      simp [Event.pushes, he]
    rw [hpushes]
    refine ih.trans ?_
    have hresults : Event.results (e :: rest) = Event.results [e] ++ Event.results rest :=
      Event.results_append [e] rest
    rw [hresults]
    exact List.sublist_append_right _ _

theorem of_sublist {os : List Observation} (h : owed.Sublist os) :
    Delivered owed (os.map .observed) := by
  induction h with
  | slnil => exact .nil
  | cons o _ ih => exact .passed rfl ih
  | cons_cons o _ ih => exact .paid ih

theorem map_observed (os : List Observation) : Delivered [] (os.map .observed) :=
  of_sublist (List.nil_sublist os)

/-- Events that deliver nothing add what they push to what is owed. -/
theorem append_iff (hes : Event.results es = []) :
    Delivered owed (es ++ fs) ↔ Delivered (owed ++ Event.pushes es) fs := by
  induction es generalizing owed with
  | nil => simp
  | cons e rest ih =>
    have hrest : Event.results rest = [] := by
      have h := Event.results_append [e] rest
      rw [List.singleton_append, hes] at h
      exact (List.append_eq_nil_iff.mp h.symm).2
    cases e with
    | observed o => cases hes
    | made o =>
      have hpushes : Event.pushes (.made o :: rest) = o :: Event.pushes rest := rfl
      rw [hpushes, List.append_cons, ← ih hrest]
      constructor
      · intro h
        cases h with
        | made h => exact h
        | passed he _ => cases he
      · exact .made
    | _ =>
      refine Iff.trans ?_ (ih hrest)
      constructor
      · intro h
        cases h with
        | passed _ h => exact h
      · exact .passed rfl

theorem nil_iff : Delivered owed [] ↔ owed = [] := by
  constructor
  · intro h
    cases h
    rfl
  · rintro rfl
    exact .nil

theorem of_pushes_eq_nil (h : Event.pushes es = []) : Delivered [] es := by
  induction es with
  | nil => exact .nil
  | cons e rest ih =>
    cases he : e.made? with
    | none =>
      refine .passed he (ih ?_)
      simpa [Event.pushes, he] using h
    | some o => simp [Event.pushes, he] at h

/-- Events that deliver nothing must push nothing. -/
theorem pushes_eq_nil (h : Delivered owed es) (hes : Event.results es = []) :
    Event.pushes es = [] := by
  rw [← List.append_nil es, append_iff hes, nil_iff] at h
  exact (List.append_eq_nil_iff.mp h).2

theorem flatMap_ofSource (os : List Observation) : Delivered [] (os.flatMap Event.ofSource) := by
  induction os with
  | nil => exact .nil
  | cons o rest ih => exact .made (.paid ih)

/-- Behind a cache everything is delivered at the end. -/
theorem aside (h : Delivered [] es) :
    Delivered [] (Event.aside es ++ (Event.results es).map .observed) := by
  rw [append_iff (Event.results_aside es), Event.pushes_aside]
  exact of_sublist h.sublist

end Delivered

namespace Scraper

/-- A run that returns has delivered what it has pushed, and a source always has. -/
theorem delivered_run_limit (s : Scraper σ κ) (session : Session κ) (version : Version)
    (span : Nat) (m : Moment σ)
    (h : (((s.run session version).limit span).run m.time m.world).value ≠ none ∨ s.slots = []) :
    Delivered [] (((s.run session version).limit span).run m.time m.world).events := by
  induction s with
  | direct source =>
    rw [run_limit_direct]
    exact .passed rfl (.flatMap_ofSource _)
  | cached slot ttl inner ih =>
    have hvalue := h.resolve_right (List.cons_ne_nil _ _)
    cases hf : fresh? slot ttl m session.database with
    | some os =>
      rw [run_limit_cached_of_fresh hf]
      exact .map_observed os
    | none =>
      rw [run_limit_cached_of_stale hf] at hvalue ⊢
      cases hv : (((inner.run session version).limit span).run m.time m.world).value with
      | none =>
        simp only [hv] at hvalue
        exact absurd rfl hvalue
      | some verdict =>
        have hinner := ih (Or.inl (by rw [hv]; exact Option.some_ne_none _))
        simpa only [hv] using hinner.aside

/-- A run of a cached scraper that is dropped has delivered nothing. -/
theorem results_run_limit_of_dropped (s : Scraper σ κ) (hs : s.slots ≠ []) (session : Session κ)
    (version : Version) (span : Nat) (m : Moment σ)
    (h : (((s.run session version).limit span).run m.time m.world).value = none) :
    Event.results (((s.run session version).limit span).run m.time m.world).events = [] := by
  cases s with
  | direct source => exact absurd rfl hs
  | cached slot ttl inner =>
    cases hf : fresh? slot ttl m session.database with
    | some os =>
      rw [run_limit_cached_of_fresh hf] at h
      cases h
    | none =>
      rw [run_limit_cached_of_stale hf] at h ⊢
      cases hv : (((inner.run session version).limit span).run m.time m.world).value with
      | none => simp only [hv, Event.results_aside]
      | some verdict =>
        simp only [hv] at h
        cases h

end Scraper

def Interrupted (scrapers : List (Scraper σ κ)) (log : List Event) : Prop :=
  ∃ s ∈ scrapers, s.slots ≠ [] ∧ ∃ session version span, ∃ m : Moment σ,
    let o := ((s.run session version).limit span).run m.time m.world
    o.value = none ∧ o.events = log

def Accounted (interrupted : List Event → Prop) (a : Activity (World σ) Event α) : Prop :=
  ∀ span (m : Moment σ), let o := (a.limit span).run m.time m.world
    ∃ kept cut, o.events = kept ++ cut ∧ Delivered [] kept ∧
      (cut ≠ [] → o.value = none ∧ interrupted cut)

namespace Accounted

variable {interrupted : List Event → Prop}

theorem of_delivered {a : Activity (World σ) Event α}
    (h : ∀ span (m : Moment σ), Delivered [] ((a.limit span).run m.time m.world).events) :
    Accounted interrupted a := by
  intro span m
  refine ⟨_, [], (List.append_nil _).symm, h span m, ?_⟩
  intro hne
  exact absurd rfl hne

theorem pure (value : α) :
    Accounted interrupted (Pure.pure value : Activity (World σ) Event α) :=
  of_delivered fun _ _ => .nil

theorem now : Accounted interrupted (.now : Activity (World σ) Event Nat) :=
  of_delivered fun _ _ => .nil

theorem emit {e : Event} (h : e.made? = none) :
    Accounted interrupted (.emit e : Activity (World σ) Event Unit) :=
  of_delivered fun _ _ => .passed h .nil

theorem asking (q : Query σ α) : Accounted interrupted (Scraper.asking q) := by
  apply of_delivered
  intro span m
  rw [Scraper.events_run_limit_asking]
  exact .nil

/-- An activity goes on only after one that has delivered all that it has pushed. -/
theorem bind {a : Activity (World σ) Event α} {next : α → Activity (World σ) Event β}
    (ha : Accounted interrupted a) (hnext : ∀ v, Accounted interrupted (next v)) :
    Accounted interrupted (a >>= next) := by
  intro span m
  obtain ⟨kept, cut, hevents, hkept, hcut⟩ := ha span m
  simp only [Activity.run_limit_bind]
  cases hv : ((a.limit span).run m.time m.world).value with
  | none => exact ⟨kept, cut, hevents, hkept, fun hne => ⟨rfl, (hcut hne).2⟩⟩
  | some v =>
    have hnil : cut = [] := by
      by_contra hne
      rw [(hcut hne).1] at hv
      cases hv
    obtain ⟨kept', cut', hevents', hkept', hcut'⟩ := hnext v
      (span - (((a.limit span).run m.time m.world).time - m.time))
      ((a.limit span).run m.time m.world).moment
    simp only [Activity.Outcome.moment] at hevents' hcut'
    refine ⟨kept ++ kept', cut', ?_, hkept.append hkept', hcut'⟩
    simp only [hevents, hnil, hevents', List.append_nil, List.append_assoc]

/-- A run of a source delivers at once; a run of a cached scraper delivers all or nothing. -/
theorem run {scrapers : List (Scraper σ κ)} {s : Scraper σ κ} (hs : s ∈ scrapers)
    (session : Session κ) (version : Version) :
    Accounted (Interrupted scrapers) (s.run session version) := by
  intro span m
  by_cases h : (((s.run session version).limit span).run m.time m.world).value ≠ none ∨
      s.slots = []
  · refine ⟨_, [], (List.append_nil _).symm, s.delivered_run_limit session version span m h, ?_⟩
    intro hne
    exact absurd rfl hne
  · rw [not_or, not_not] at h
    exact ⟨[], _, rfl, .nil, fun _ => ⟨h.1, s, hs, h.2, session, version, span, m, h.1, rfl⟩⟩

theorem segments {scrapers ss : List (Scraper σ κ)} (hss : ∀ s ∈ ss, s ∈ scrapers)
    (session : Session κ) (version : Version) :
    Accounted (Interrupted scrapers) (Scrape.segments session version ss) := by
  induction ss with
  | nil => exact pure ()
  | cons s rest ih =>
    rw [List.forall_mem_cons] at hss
    refine bind ?_ fun _ => ih hss.2
    refine bind now fun _ => bind (run hss.1 session version) fun _ => bind now fun _ => ?_
    exact bind (emit rfl) fun _ => emit rfl

theorem connect (g : Gateway σ κ) (number : Nat) (target : Target) :
    Accounted interrupted (Scrape.connect g number target) := by
  refine bind (emit rfl) fun _ => bind (asking _) fun answer => ?_
  cases answer with
  | error failure => exact pure _
  | ok session => exact bind (emit rfl) fun _ => pure _

theorem close (g : Gateway σ κ) (number : Nat) (session : Session κ) :
    Accounted interrupted (Scrape.close g number session) :=
  bind (emit rfl) fun _ => bind (asking _) fun _ => pure ()

theorem walk {scrapers ss : List (Scraper σ κ)} (hss : ∀ s ∈ ss, s ∈ scrapers)
    (g : Gateway σ κ) (target : Target) (version : Version) (number : Nat)
    (databases : List String) :
    Accounted (Interrupted scrapers) (Scrape.walk g target version ss number databases) := by
  induction databases generalizing number with
  | nil => exact pure ()
  | cons d rest ih =>
    refine bind (connect g number _) fun answer => ?_
    cases answer with
    | error failure => exact pure ()
    | ok session =>
      exact bind (segments hss session version) fun _ => bind (close g number session) fun _ =>
        ih (number + 1)

theorem onServer {scrapers : List (Scraper σ κ)} (g : Gateway σ κ) (target : Target)
    (set : ScraperSet σ κ) (excluded only : List String) (session : Session κ)
    (hset : ∀ s ∈ set.all, Scrape.selected only s → s ∈ scrapers) :
    Accounted (Interrupted scrapers) (Scrape.onServer g target set excluded only session) := by
  refine bind (asking _) fun answer => ?_
  cases answer with
  | error failure => exact pure ()
  | ok raw =>
    refine bind (emit rfl) fun _ => bind (asking _) fun answer => ?_
    cases answer with
    | error failure => exact pure ()
    | ok databases =>
      refine bind (segments ?_ session _) fun _ => walk ?_ g target _ 1 databases
      · intro s hs
        obtain ⟨hmem, hsel⟩ := List.mem_filter.mp hs
        exact hset s (List.mem_append_left _ hmem) hsel
      · intro s hs
        obtain ⟨hmem, hsel⟩ := List.mem_filter.mp hs
        exact hset s (List.mem_append_right _ hmem) hsel

theorem collect {scrapers : List (Scraper σ κ)} (g : Gateway σ κ) (target : Target)
    (set : ScraperSet σ κ) (excluded only : List String)
    (hset : ∀ s ∈ set.all, Scrape.selected only s → s ∈ scrapers) :
    Accounted (Interrupted scrapers) (Scrape.collect g target set excluded only) := by
  refine bind (connect g 0 target) fun answer => ?_
  cases answer with
  | error failure => exact emit rfl
  | ok session =>
    refine bind (emit rfl) fun _ => ?_
    exact bind (onServer g target set excluded only session hset) fun _ => close g 0 session

end Accounted

namespace Service

def running (s : Service σ κ) (only : List String) : List (Scraper σ κ) :=
  s.scrapers.all.filter (Scrape.selected only)

def log (s : Service σ κ) (only : List String) (m : Moment σ) : List Event :=
  ((s.attempt only).run m.time m.world).events

def sink (s : Service σ κ) (only : List String) (m : Moment σ) : List Observation :=
  ((s.scrape only).run m.time m.world).value

/-- The sink is what has reached the result, and that is all that has been pushed, each push in its
turn. -/
structure Lossless (s : Service σ κ) (only : List String) (m : Moment σ) : Prop where
  sink : s.sink only m = Event.results (s.log only m)
  delivered : Delivered [] (s.log only m)

/-- A scrape is dropped in a run of a cached scraper that had already pushed something. -/
def Strands (s : Service σ κ) (only : List String) (m : Moment σ) : Prop :=
  ∃ kept cut, s.log only m = kept ++ cut ∧ Interrupted (s.running only) cut ∧
    Event.pushes cut ≠ []

theorem sink_eq (s : Service σ κ) (only : List String) (m : Moment σ) :
    s.sink only m = Event.results (s.log only m) := by
  simp [sink, scrape, log, Event.results]

theorem Lossless.sublist {s : Service σ κ} {only : List String} {m : Moment σ}
    (h : s.Lossless only m) : (Event.pushes (s.log only m)).Sublist (s.sink only m) := by
  rw [h.sink]
  exact h.delivered.sublist

/-- A scrape loses something that was pushed before its deadline exactly if it is dropped in a run
of a cached scraper that had already pushed something. -/
theorem lossless_iff (s : Service σ κ) (only : List String) (m : Moment σ) :
    (s.Lossless only m ↔ ¬ s.Strands only m) ∧
      (s.Lossless only m → (Event.pushes (s.log only m)).Sublist (s.sink only m)) ∧
      (s.Strands only m → ((s.attempt only).run m.time m.world).value = none) := by
  have hset : ∀ r ∈ s.scrapers.all, Scrape.selected only r → r ∈ s.running only := by
    intro r hr hsel
    exact List.mem_filter.mpr ⟨hr, hsel⟩
  obtain ⟨kept, cut, hlog, hkept, hcut⟩ :=
    Accounted.collect s.gateway s.target s.scrapers s.excluded only hset s.timeout m
  change s.log only m = kept ++ cut at hlog
  have hstrands : s.Lossless only m → ¬ s.Strands only m := by
    rintro ⟨_, hdelivered⟩ ⟨kept', cut', hlog', ⟨r, _, hr, session, version, span, m', hv, rfl⟩, hne⟩
    rw [hlog'] at hdelivered
    obtain ⟨left, hleft⟩ := hdelivered.of_append
    have hresults := r.results_run_limit_of_dropped hr session version span m' hv
    exact hne (hleft.pushes_eq_nil hresults)
  have hlossless : Event.pushes cut = [] → s.Lossless only m := by
    intro hpushes
    refine ⟨s.sink_eq only m, ?_⟩
    rw [hlog]
    exact hkept.append (.of_pushes_eq_nil hpushes)
  have hne : Event.pushes cut ≠ [] → cut ≠ [] := by
    rintro h rfl
    exact h rfl
  refine ⟨⟨hstrands, ?_⟩, Lossless.sublist, ?_⟩
  · intro h
    by_contra hloss
    have hpushes := mt hlossless hloss
    exact h ⟨kept, cut, hlog, (hcut (hne hpushes)).2, hpushes⟩
  · intro h
    by_cases hpushes : Event.pushes cut = []
    · exact absurd h (hstrands (hlossless hpushes))
    · exact (hcut (hne hpushes)).1

def tardy : Rehearsal.Part where
  name := "slow"
  cues := [⟨.gauge, "m", [], .number 1, "help"⟩]
  delay := 100

def hasty : Service Rehearsal.Stage Nat where
  gateway := Rehearsal.Stage.gateway
  target := ⟨⟨"localhost", 5432, none, "postgres", none, none, .prefer, none, none⟩, "postgres"⟩
  scrapers := { global := [.cached 0 60000 (.direct tardy.source)] }
  excluded := []
  timeout := 50

/-- The observation has been pushed when the scrape is dropped after 50 milliseconds, but it is not
among what is returned. -/
theorem hasty_not_lossless :
    let m : Moment Rehearsal.Stage := ⟨0, ⟨{ script := { version := "16.1" } }, .empty⟩⟩
    (Event.pushes (hasty.log [] m)).map Observation.name = ["m"] ∧
      (hasty.sink [] m).map Observation.name = ["postgres_up", "postgres_info"] ∧
      ¬ (Event.pushes (hasty.log [] m)).Sublist (hasty.sink [] m) := by
  intro m
  have hpushes : (Event.pushes (hasty.log [] m)).map Observation.name = ["m"] := by
    decide +kernel
  have hsink : (hasty.sink [] m).map Observation.name = ["postgres_up", "postgres_info"] := by
    decide +kernel
  refine ⟨hpushes, hsink, ?_⟩
  intro h
  have hnames := h.map Observation.name
  rw [hpushes, hsink] at hnames
  revert hnames
  decide

end Service
end PgMetrics
