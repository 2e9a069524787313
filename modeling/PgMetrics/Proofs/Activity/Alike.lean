import PgMetrics.Proofs.Activity.Path

/-! # Activities that go alike

Two activities are alike if, on states that a view does not tell apart, they leave the same events
behind at the same times, come to related values, and again leave states that the view does not tell
apart.  So it is enough for a path among others, who leave the view alone, that a like activity takes
the same course alone.
-/
namespace PgMetrics.Activity

variable {σ τ ω ω' α β γ δ : Type}

/-- Activities whose instants and waits match, whatever the view does not show. -/
inductive Alike (view : σ → γ) (r : α → α → Prop) : Activity σ ω α → Activity σ ω α → Prop where
  | done {x y : α} : r x y → Alike view r (.done x) (.done y)
  | note (event : ω) {a b : Activity σ ω α} :
      Alike view r a b → Alike view r (.note event a) (.note event b)
  | access {change change' : Nat → σ → σ} {rest rest' : Nat → σ → Activity σ ω α} :
      (∀ now s s', view s = view s' → view (change now s) = view (change' now s')) →
      (∀ now s s', view s = view s' → Alike view r (rest now s) (rest' now s')) →
      Alike view r (.access change rest) (.access change' rest')
  | wait (span : Nat) {a b : Activity σ ω α} :
      Alike view r a b → Alike view r (.wait span a) (.wait span b)

/-- To the view that shows all, an activity is like itself. -/
theorem Alike.refl (a : Activity σ ω α) : Alike id Eq a a := by
  induction a with
  | done value => exact .done rfl
  | note event rest ih => exact .note event ih
  | access change rest ih =>
    refine .access (fun now s s' hs => ?_) fun now s s' hs => ?_
    · cases hs
      rfl
    · cases hs
      exact ih now s
  | wait span rest ih => exact .wait span ih

namespace Alike

variable {view : σ → γ} {r : α → α → Prop} {r' : β → β → Prop} {a b : Activity σ ω α}

theorem mono {r₁ : α → α → Prop} (h : Alike view r a b) (hr : ∀ x y, r x y → r₁ x y) :
    Alike view r₁ a b := by
  induction h with
  | done h => exact .done (hr _ _ h)
  | note event _ ih => exact .note event ih
  | access hchange _ ih => exact .access hchange ih
  | wait span _ ih => exact .wait span ih

theorem bind {next next' : α → Activity σ ω β} (h : Alike view r a b)
    (hnext : ∀ x y, r x y → Alike view r' (next x) (next' y)) :
    Alike view r' (a >>= next) (b >>= next') := by
  change Alike view r' (a.bind next) (b.bind next')
  induction h with
  | done h => exact hnext _ _ h
  | note event _ ih => exact .note event ih
  | access hchange _ ih => exact .access hchange ih
  | wait span _ ih => exact .wait span ih

theorem bind_eq {next next' : α → Activity σ ω β} (h : Alike view Eq a b)
    (hnext : ∀ x, Alike view r' (next x) (next' x)) :
    Alike view r' (a >>= next) (b >>= next') := by
  refine h.bind fun x y hxy => ?_
  rw [hxy]
  exact hnext y

theorem pure (value : α) :
    Alike view Eq (Pure.pure value : Activity σ ω α) (Pure.pure value) := .done rfl

theorem emit (event : ω) : Alike view Eq (Activity.emit event : Activity σ ω Unit)
    (Activity.emit event) := .note event (.done rfl)

theorem emitAll (events : List ω) : Alike view Eq (Activity.emitAll events : Activity σ ω Unit)
    (Activity.emitAll events) := by
  induction events with
  | nil => exact .done rfl
  | cons e rest ih => exact .note e ih

theorem now : Alike view Eq (Activity.now : Activity σ ω Nat) Activity.now :=
  .access (fun _ _ _ hs => hs) fun _ _ _ _ => .done rfl

theorem state : Alike view (fun s s' => view s = view s') (Activity.state : Activity σ ω σ)
    Activity.state := .access (fun _ _ _ hs => hs) fun _ _ _ hs => .done hs

theorem ask {question question' : Nat → σ → α × σ}
    (h : ∀ now s s', view s = view s' →
      r (question now s).1 (question' now s').1 ∧
        view (question now s).2 = view (question' now s').2) :
    Alike view r (Activity.ask question : Activity σ ω α) (Activity.ask question') :=
  .access (fun now s s' hs => (h now s s' hs).2) fun now s s' hs => .done (h now s s' hs).1

theorem modify {change : σ → σ} (h : ∀ s s', view s = view s' → view (change s) = view (change s')) :
    Alike view Eq (Activity.modify change : Activity σ ω Unit) (Activity.modify change) :=
  .access (fun _ => h) fun _ _ _ _ => .done rfl

theorem pause (span : Nat) :
    Alike view Eq (Activity.pause span : Activity σ ω Unit) (Activity.pause span) :=
  .wait span (.done rfl)

theorem limit_rel (h : Alike view r a b) (span : Nat) :
    Alike view (Option.Rel r) (a.limit span) (b.limit span) := by
  induction h generalizing span with
  | done h => exact .done (.some h)
  | note event _ ih => exact .note event (ih span)
  | access hchange _ ih => exact .access hchange fun now s s' hs => ih now s s' hs span
  | wait d _ ih =>
    simp only [Activity.limit]
    by_cases hd : d ≤ span ∧ 0 < span
    · rw [if_pos hd, if_pos hd]
      exact .wait d (ih (span - d))
    · rw [if_neg hd, if_neg hd]
      exact .wait span (.done .none)

theorem eq_of_rel {x y : Option α} (h : Option.Rel Eq x y) : x = y := by
  cases h with
  | some h => exact congrArg some h
  | none => rfl

theorem limit (h : Alike view Eq a b) (span : Nat) :
    Alike view Eq (a.limit span) (b.limit span) :=
  (h.limit_rel span).mono fun _ _ => eq_of_rel

theorem foldr_note (h : Alike view r a b) (events : List ω) :
    Alike view r (events.foldr .note a) (events.foldr .note b) := by
  induction events with
  | nil => exact h
  | cons e rest ih => exact .note e ih

theorem flatMapEvents (h : Alike view r a b) (f : ω → List ω') :
    Alike view r (a.flatMapEvents f) (b.flatMapEvents f) := by
  induction h with
  | done h => exact .done h
  | note event _ ih => exact ih.foldr_note (f event)
  | access hchange _ ih => exact .access hchange ih
  | wait span _ ih => exact .wait span ih

theorem gather (h : Alike view r a b) (pick : ω → Option β) :
    Alike view (fun x y => r x.1 y.1 ∧ x.2 = y.2) (a.gather pick) (b.gather pick) := by
  suffices hgo : ∀ picked, Alike view (fun x y => r x.1 y.1 ∧ x.2 = y.2)
      (gather.go pick picked a) (gather.go pick picked b) from hgo []
  induction h with
  | done h => exact fun picked => .done ⟨h, rfl⟩
  | note event _ ih => exact fun picked => .note event (ih _)
  | access hchange _ ih => exact fun picked => .access hchange fun now s s' hs => ih now s s' hs picked
  | wait span _ ih => exact fun picked => .wait span (ih picked)

theorem within {view' : τ → δ} {get : τ → σ} {put : σ → τ → τ} (h : Alike view r a b)
    (hget : ∀ t t', view' t = view' t' → view (get t) = view (get t'))
    (hput : ∀ s s' t t', view s = view s' → view' t = view' t' → view' (put s t) = view' (put s' t')) :
    Alike view' r (a.within get put) (b.within get put) := by
  induction h with
  | done h => exact .done h
  | note event _ ih => exact .note event ih
  | access hchange _ ih =>
    exact .access (fun now t t' ht => hput _ _ t t' (hchange now _ _ (hget t t' ht)) ht)
      fun now t t' ht => ih now _ _ (hget t t' ht)
  | wait span _ ih => exact .wait span ih

/-- A path among others who leave the view alone is the course that a like activity takes alone. -/
theorem path {time time' : Nat} {s x s' : σ} {es : List (Nat × ω)} {v : α} (h : Alike view r a b)
    (hs : view s = view x) (hpath : Path view a time s es time' s' (some v)) :
    let o := b.run time x
    b.chart time x = es ∧ o.time = time' ∧ view s' = view o.state ∧ r v o.value := by
  induction h generalizing time s x es with
  | done h =>
    cases hpath with
    | done _ hs' => exact ⟨rfl, rfl, hs'.symm.trans hs, h⟩
  | note event _ ih =>
    cases hpath with
    | note hpath =>
      obtain ⟨hchart, hrest⟩ := ih hs hpath
      exact ⟨congrArg (List.cons _) hchart, hrest⟩
  | access hchange _ ih =>
    cases hpath with
    | access hs₁ hpath =>
      have hseen := hs₁.symm.trans hs
      exact ih _ _ _ hseen (hchange _ _ _ hseen) hpath
  | wait span _ ih =>
    cases hpath with
    | wait hpath => exact ih hs hpath

/-- Alone, from states that the view does not tell apart, like activities take the same course. -/
theorem run (time : Nat) {s s' : σ} (h : Alike view r a b) (hs : view s = view s') :
    let o := a.run time s
    let o' := b.run time s'
    o.time = o'.time ∧ view o.state = view o'.state ∧ o.events = o'.events ∧ r o.value o'.value := by
  obtain ⟨hchart, htime, hstate, hvalue⟩ := h.path hs (Path.of_run view a time s)
  refine ⟨htime.symm, hstate, ?_, hvalue⟩
  rw [← chart_map_snd, ← chart_map_snd, hchart]

end Alike

@[simp] theorem chart_pure (value : α) (time : Nat) (s : σ) :
    (pure value : Activity σ ω α).chart time s = [] := rfl

@[simp] theorem chart_now (time : Nat) (s : σ) : (now : Activity σ ω Nat).chart time s = [] := rfl

@[simp] theorem chart_pause (span time : Nat) (s : σ) :
    (pause span : Activity σ ω Unit).chart time s = [] := rfl

@[simp] theorem chart_bind (a : Activity σ ω α) (next : α → Activity σ ω β) (time : Nat) (s : σ) :
    (a >>= next).chart time s =
      let o := a.run time s
      a.chart time s ++ (next o.value).chart o.time o.state := by
  change (a.bind next).chart time s = _
  induction a generalizing time s with
  | done value => rfl
  | note event rest ih => exact congrArg (List.cons _) (ih time s)
  | access change rest ih => exact ih _ _ _ _
  | wait span rest ih => exact ih _ _

@[simp] theorem chart_gather (a : Activity σ ω α) (pick : ω → Option β) (time : Nat) (s : σ) :
    (a.gather pick).chart time s = a.chart time s := by
  suffices h : ∀ picked, (gather.go pick picked a).chart time s = a.chart time s from h []
  induction a generalizing time s with
  | done value => exact fun picked => rfl
  | note event rest ih => exact fun picked => congrArg (List.cons _) (ih time s _)
  | access change rest ih => exact fun picked => ih _ _ _ _ picked
  | wait span rest ih => exact fun picked => ih _ _ picked

@[simp] theorem chart_emitAll (events : List ω) (time : Nat) (s : σ) :
    (emitAll events).chart time s = events.map (Prod.mk time) := by
  induction events with
  | nil => rfl
  | cons e rest ih => exact congrArg (List.cons (time, e)) ih

end PgMetrics.Activity
