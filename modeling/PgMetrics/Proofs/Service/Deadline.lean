import PgMetrics.Proofs.Scrape.Contents

/-! # What an earlier deadline leaves

From the same moment on, scrapes with different deadlines do the same until the earlier one.  So what
the shorter scrape returns is a beginning of what the longer one does, and all of it if the longer
one is over by then.  No deadline falls between the two reports about a run.
-/
namespace PgMetrics

variable {σ κ : Type}

def Event.ofOpening : Event → Bool
  | .requested _ | .opened _ _ => true
  | _ => false

/-- Every report of how long a run took is followed at once by one with the same labels of whether it
succeeded, apart from exempt observations. -/
def Paired (exempt : Observation → Prop) (os : List Observation) : Prop :=
  ∀ before o after, os = before ++ o :: after →
    o.name = "postgres_exporter_scraper_duration_seconds" → ¬ exempt o →
      ∃ p rest, after = p :: rest ∧ p.name = "postgres_exporter_scraper_success" ∧
        p.labels = o.labels

namespace Paired

variable {exempt : Observation → Prop}

theorem append {os os' : List Observation} (h : Paired exempt os) (h' : Paired exempt os') :
    Paired exempt (os ++ os') := by
  intro before o after hsplit hname hexempt
  rcases List.append_eq_append_iff.mp hsplit with ⟨as, _, hright⟩ | ⟨bs, hleft, hright⟩
  · exact h' as o after hright hname hexempt
  · cases bs with
    | nil => exact h' [] o after hright.symm hname hexempt
    | cons b bs =>
      obtain ⟨rfl, rfl⟩ := List.cons.inj hright
      obtain ⟨p, rest, rfl, hp⟩ := h before o bs hleft hname hexempt
      exact ⟨p, rest ++ os', rfl, hp⟩

theorem of_forall {os : List Observation}
    (h : ∀ o ∈ os, exempt o ∨ o.name ≠ "postgres_exporter_scraper_duration_seconds") :
    Paired exempt os := by
  rintro before o after rfl hname hexempt
  rcases h o (List.mem_append_right _ List.mem_cons_self) with h | h
  · exact absurd h hexempt
  · exact absurd hname h

theorem report (scraper database : String) (span : Nat) (verdict : Verdict) :
    Paired exempt
      [Scrape.duration scraper database span, Scrape.success scraper database verdict] := by
  intro before o after hsplit hname _
  rcases before with _ | ⟨b, before⟩
  · obtain ⟨rfl, rfl⟩ := List.cons.inj hsplit
    exact ⟨_, [], rfl, rfl, rfl⟩
  · have htail : [Scrape.success scraper database verdict] = before ++ o :: after :=
      (List.cons.inj hsplit).2
    have hmem : o ∈ [Scrape.success scraper database verdict] :=
      htail ▸ List.mem_append_right _ List.mem_cons_self
    rw [List.mem_singleton.mp hmem] at hname
    simp [Scrape.success] at hname

theorem law : Scrape.Law exempt (Paired exempt) where
  append := append
  of_forall h := of_forall fun o ho => Or.inl (h o ho)
  info v := of_forall (by simp [Scrape.info])
  report := report

end Paired

def Caches.Remember (cs : Caches) (o : Observation) : Prop :=
  ∃ slot d e, (cs.cache slot).get? d = some e ∧ o ∈ e.observations

namespace Service

def within (s : Service σ κ) (span : Nat) : Service σ κ := { s with timeout := span }

/-- What a source pushed in the scrape or a cache remembered before it. -/
def Foreign (s : Service σ κ) (only : List String) (m : Moment σ) (o : Observation) : Prop :=
  o ∈ Event.pushes (s.log only m) ∨ m.world.caches.Remember o

/-- What a shorter and a longer scrape from the same moment have in common. -/
structure Shortens (s : Service σ κ) (only : List String) (m : Moment σ) (short long : Nat) :
    Prop where
  sink : (s.within short).sink only m <+: (s.within long).sink only m
  openings : (((s.within short).scrape only).run m.time m.world).events.filter Event.ofOpening <+:
    (((s.within long).scrape only).run m.time m.world).events.filter Event.ofOpening
  /-- They are equal if the longer one is over by the deadline of the shorter. -/
  complete : (((s.within long).attempt only).run m.time m.world).value = some () →
    ((s.within long).attempt only).EndsWithin short m.time m.world →
      ((s.within short).scrape only).run m.time m.world =
        ((s.within long).scrape only).run m.time m.world

theorem log_isPrefix (s : Service σ κ) (only : List String) (m : Moment σ) {short long : Nat}
    (h : short ≤ long) : (s.within short).log only m <+: (s.within long).log only m :=
  Activity.events_run_limit_mono _ h m.time m.world

theorem paired_sink (s : Service σ κ) (only : List String) (m : Moment σ) :
    Paired (s.Foreign only m) (s.sink only m) := by
  have hcaches : m.world.caches.Hold (s.Foreign only m) := by
    intro slot d e he o ho
    exact Or.inr ⟨slot, d, e, he, ho⟩
  have hup : ∀ value, Paired (s.Foreign only m) [Scrape.up value] := fun value =>
    .of_forall (by simp [Scrape.up])
  rcases sink_lawful Paired.law s only m hcaches (fun o ho => Or.inl ho) with
    ⟨_, hsink⟩ | ⟨_, _, hsink⟩ | ⟨_, rest, _, _, hsink, hrest⟩
  · rw [hsink]
    exact .of_forall (by simp)
  · rw [hsink]
    exact hup 0
  · rw [hsink]
    exact (hup 1).append hrest

/-- The events of a scrape that tell of openings are those before its deadline. -/
theorem openings_scrape (s : Service σ κ) (only : List String) (m : Moment σ) :
    ((s.scrape only).run m.time m.world).events.filter Event.ofOpening =
      (s.log only m).filter Event.ofOpening := by
  rw [run_scrape, List.filter_append]
  change List.filter _ (s.log only m) ++ _ = _
  simp [Event.ofOpening]

/-- A scrape that is over by an earlier deadline needs no later one. -/
theorem scrape_eq_of_endsWithin {s : Service σ κ} {only : List String} {m : Moment σ}
    {short long : Nat}
    (hvalue : (((s.within long).attempt only).run m.time m.world).value = some ())
    (hends : ((s.within long).attempt only).EndsWithin short m.time m.world) :
    ((s.within short).scrape only).run m.time m.world =
      ((s.within long).scrape only).run m.time m.world := by
  let whole := Scrape.collect s.gateway s.target s.scrapers s.excluded only
  have hsome : ((whole.limit long).run m.time m.world).value ≠ none := by
    change (((s.within long).attempt only).run m.time m.world).value ≠ none
    rw [hvalue]
    exact Option.some_ne_none _
  obtain ⟨hlong, hpauses⟩ := Activity.run_limit_of_some hsome
  have hwhole : whole.EndsWithin short m.time m.world := by
    change (whole.limit long).EndsWithin short m.time m.world at hends
    rwa [Activity.EndsWithin, hlong, hpauses] at hends
  have hshort := (Activity.run_limit_of_some ((whole.run_limit_ne_none_iff _ _ _).mpr hwhole)).1
  have hattempt : ((s.within short).attempt only).run m.time m.world =
      ((s.within long).attempt only).run m.time m.world := hshort.trans hlong.symm
  rw [run_scrape, run_scrape, hattempt]

/-- A shorter scrape returns a beginning of what a longer one does, and opens its connections, and
no result has the first of two reports without the second. -/
theorem shortens_of_le (s : Service σ κ) (only : List String) (m : Moment σ) {short long : Nat}
    (h : short ≤ long) :
    s.Shortens only m short long ∧
      ∀ span, Paired ((s.within span).Foreign only m) ((s.within span).sink only m) := by
  refine ⟨⟨?_, ?_, scrape_eq_of_endsWithin⟩, fun span => (s.within span).paired_sink only m⟩
  · rw [sink_eq, sink_eq]
    exact (s.log_isPrefix only m h).filterMap _
  · rw [openings_scrape, openings_scrape]
    exact (s.log_isPrefix only m h).filter _

/-- The scraper takes 100 milliseconds, so 150 are as good as 200. -/
theorem shortens_of_le_hasty :
    let m : Moment Rehearsal.Stage := ⟨0, ⟨{ script := { version := "16.1" } }, .empty⟩⟩
    150 ≤ 200 ∧ (hasty.within 50).sink [] m <+: (hasty.within 200).sink [] m ∧
      (hasty.within 150).sink [] m = (hasty.within 200).sink [] m := by
  intro m
  have hle : 150 ≤ 200 := by decide
  have hvalue : (((hasty.within 200).attempt []).run m.time m.world).value = some () := by
    decide +kernel
  have hends : ((hasty.within 200).attempt []).EndsWithin 150 m.time m.world :=
    Activity.EndsWithin.of_lt (by decide +kernel)
  have hcomplete := (shortens_of_le hasty [] m hle).1.complete hvalue hends
  exact ⟨hle, (shortens_of_le hasty [] m (by decide)).1.sink, congrArg Activity.Outcome.value hcomplete⟩

end Service
end PgMetrics
