import PgMetrics.Proofs.Activity.Run

/-! # Paths of activities

A path is a course that an activity may take while others change its state between its instants, and
it may be dropped in any wait.  Others leave alone what a `view` of the state shows: all of it, if it
is the identity, and nothing if it is constant.  So what holds of all paths holds of an activity
among others, wherever it is interrupted.
-/
namespace PgMetrics.Activity

variable {σ τ ω ω' α β γ δ : Type} {view : σ → γ}

/-- From a time and a state: the events with their times, the time and the state at the end, and the
value, which is missing if the path is dropped. -/
inductive Path (view : σ → γ) :
    Activity σ ω α → Nat → σ → List (Nat × ω) → Nat → σ → Option α → Prop where
  | done (value : α) {time : Nat} {s s' : σ} :
      view s = view s' → Path view (.done value) time s [] time s' (some value)
  | note {event : ω} {rest : Activity σ ω α} {time time' : Nat} {s s' : σ} {es : List (Nat × ω)}
      {v : Option α} : Path view rest time s es time' s' v →
      Path view (.note event rest) time s ((time, event) :: es) time' s' v
  | access {change : Nat → σ → σ} {rest : Nat → σ → Activity σ ω α} {time time' : Nat}
      {s s₁ s' : σ} {es : List (Nat × ω)} {v : Option α} : view s = view s₁ →
      Path view (rest time s₁) time (change time s₁) es time' s' v →
      Path view (.access change rest) time s es time' s' v
  | wait {d : Nat} {rest : Activity σ ω α} {time time' : Nat} {s s' : σ} {es : List (Nat × ω)}
      {v : Option α} : Path view rest (time + d) s es time' s' v →
      Path view (.wait d rest) time s es time' s' v
  | dropped (d : Nat) (rest : Activity σ ω α) {time time' : Nat} {s s' : σ} :
      time ≤ time' → view s = view s' → Path view (.wait d rest) time s [] time' s' none

def chart (time : Nat) (s : σ) : Activity σ ω α → List (Nat × ω)
  | .done _ => []
  | .note event rest => (time, event) :: rest.chart time s
  | .access change rest => (rest time s).chart time (change time s)
  | .wait span rest => rest.chart (time + span) s

theorem chart_map_snd (a : Activity σ ω α) (time : Nat) (s : σ) :
    (a.chart time s).map Prod.snd = (a.run time s).events := by
  induction a generalizing time s with
  | done value => rfl
  | note event rest ih => exact congrArg (event :: ·) (ih time s)
  | access change rest ih => exact ih _ _ _ _
  | wait d rest ih => exact ih _ _

namespace Path

variable {a : Activity σ ω α} {time time' : Nat} {s s₁ s' : σ} {es : List (Nat × ω)} {v : Option α}

/-- A run is a path. -/
theorem of_run (view : σ → γ) (a : Activity σ ω α) (time : Nat) (s : σ) :
    let o := a.run time s
    Path view a time s (a.chart time s) o.time o.state (some o.value) := by
  induction a generalizing time s with
  | done value => exact .done value rfl
  | note event rest ih => exact .note (ih time s)
  | access change rest ih => exact .access rfl (ih _ _ _ _)
  | wait d rest ih => exact .wait (ih _ _)

theorem le (h : Path view a time s es time' s' v) : time ≤ time' := by
  induction h with
  | done => exact Nat.le_refl _
  | note _ ih => exact ih
  | access _ _ ih => exact ih
  | wait _ ih => omega
  | dropped _ _ hle => exact hle

/-- Events happen between the beginning and the end. -/
theorem mem_times (h : Path view a time s es time' s' v) :
    ∀ e ∈ es, time ≤ e.1 ∧ e.1 ≤ time' := by
  induction h with
  | done => simp
  | note h ih => exact List.forall_mem_cons.mpr ⟨⟨Nat.le_refl _, h.le⟩, ih⟩
  | access _ _ ih => exact ih
  | wait h ih =>
    intro e he
    have hmem := ih e he
    omega
  | dropped => simp

/-- What others do before a path begins belongs to the path. -/
theorem of_others (hs : view s = view s₁) (h : Path view a time s₁ es time' s' v) :
    Path view a time s es time' s' v := by
  induction h with
  | done _ h => exact .done _ (hs.trans h)
  | note _ ih => exact .note (ih hs)
  | access h hrest _ => exact .access (hs.trans h) hrest
  | wait _ ih => exact .wait (ih hs)
  | dropped _ _ hle h => exact .dropped _ _ hle (hs.trans h)

/-- What others do after a path belongs to the path. -/
theorem others_after (h : Path view a time s es time' s₁ v) (hs : view s₁ = view s') :
    Path view a time s es time' s' v := by
  induction h with
  | done value h => exact .done value (h.trans hs)
  | note _ ih => exact .note (ih hs)
  | access h _ ih => exact .access h (ih hs)
  | wait _ ih => exact .wait (ih hs)
  | dropped d rest hle h => exact .dropped d rest hle (h.trans hs)

section Instants
variable {β : Type} {u : Option β}

theorem of_pure {value : α}
    (h : Path view (Pure.pure value : Activity σ ω α) time s es time' s' v) :
    es = [] ∧ time' = time ∧ view s = view s' ∧ v = some value := by
  cases h with
  | done _ hs => exact ⟨rfl, rfl, hs, rfl⟩

theorem of_emit {event : ω} {v : Option Unit}
    (h : Path view (.emit event : Activity σ ω Unit) time s es time' s' v) :
    es = [(time, event)] ∧ time' = time ∧ view s = view s' ∧ v = some () := by
  cases h with
  | note h =>
    cases h with
    | done _ hs => exact ⟨rfl, rfl, hs, rfl⟩

theorem of_emit_bind {event : ω} {next : Unit → Activity σ ω β}
    (h : Path view (.emit event >>= next) time s es time' s' u) :
    ∃ rest, Path view (next ()) time s rest time' s' u ∧ es = (time, event) :: rest := by
  cases h with
  | note h => exact ⟨_, h, rfl⟩

theorem of_emitAll_bind {events : List ω} {next : Unit → Activity σ ω β}
    (h : Path view (.emitAll events >>= next) time s es time' s' u) :
    ∃ rest, Path view (next ()) time s rest time' s' u ∧ es = events.map (Prod.mk time) ++ rest := by
  induction events generalizing es with
  | nil => exact ⟨es, h, rfl⟩
  | cons e events ih =>
    cases h with
    | note h =>
      obtain ⟨rest, h, hes⟩ := ih h
      exact ⟨rest, h, by rw [hes]; rfl⟩

theorem of_now_bind {next : Nat → Activity σ ω β}
    (h : Path view (.now >>= next) time s es time' s' u) : Path view (next time) time s es time' s' u := by
  cases h with
  | access hs h => exact h.of_others hs

theorem of_ask_bind {question : Nat → σ → δ × σ} {next : δ → Activity σ ω β}
    (h : Path view (.ask question >>= next) time s es time' s' u) :
    ∃ s₁, view s = view s₁ ∧
      Path view (next (question time s₁).1) time (question time s₁).2 es time' s' u := by
  cases h with
  | access hs h => exact ⟨_, hs, h⟩

theorem of_modify_bind {change : σ → σ} {next : Unit → Activity σ ω β}
    (h : Path view (.modify change >>= next) time s es time' s' u) :
    ∃ s₁, view s = view s₁ ∧ Path view (next ()) time (change s₁) es time' s' u := by
  cases h with
  | access hs h => exact ⟨_, hs, h⟩

end Instants

/-- A path of two activities is dropped in the first one or goes on with the second. -/
theorem bind_cases {next : α → Activity σ ω β} {v : Option β}
    (h : Path view (a >>= next) time s es time' s' v) :
    v = none ∧ Path view a time s es time' s' none ∨
      ∃ es₁ t₁ s₁ x es₂, Path view a time s es₁ t₁ s₁ (some x) ∧
        Path view (next x) t₁ s₁ es₂ time' s' v ∧ es = es₁ ++ es₂ := by
  change Path view (a.bind next) time s es time' s' v at h
  induction a generalizing time s es with
  | done value => exact Or.inr ⟨[], time, s, value, es, .done value rfl, h, rfl⟩
  | note event rest ih =>
    cases h with
    | note h =>
      rcases ih h with ⟨hv, h⟩ | ⟨es₁, t₁, s₁, x, es₂, h₁, h₂, hes⟩
      · exact Or.inl ⟨hv, .note h⟩
      · exact Or.inr ⟨_, t₁, s₁, x, es₂, .note h₁, h₂, by rw [hes]; rfl⟩
  | access change rest ih =>
    cases h with
    | access hs h =>
      rcases ih _ _ h with ⟨hv, h⟩ | ⟨es₁, t₁, s₁, x, es₂, h₁, h₂, hes⟩
      · exact Or.inl ⟨hv, .access hs h⟩
      · exact Or.inr ⟨es₁, t₁, s₁, x, es₂, .access hs h₁, h₂, hes⟩
  | wait d rest ih =>
    cases h with
    | wait h =>
      rcases ih h with ⟨hv, h⟩ | ⟨es₁, t₁, s₁, x, es₂, h₁, h₂, hes⟩
      · exact Or.inl ⟨hv, .wait h⟩
      · exact Or.inr ⟨es₁, t₁, s₁, x, es₂, .wait h₁, h₂, hes⟩
    | dropped _ _ hle hs => exact Or.inl ⟨rfl, .dropped _ _ hle hs⟩

/-- A path that is not dropped goes through both of two activities. -/
theorem bind_some {next : α → Activity σ ω β} {y : β}
    (h : Path view (a >>= next) time s es time' s' (some y)) :
    ∃ es₁ t₁ s₁ x es₂, Path view a time s es₁ t₁ s₁ (some x) ∧
      Path view (next x) t₁ s₁ es₂ time' s' (some y) ∧ es = es₁ ++ es₂ := by
  rcases h.bind_cases with ⟨hv, _⟩ | h
  · cases hv
  · exact h

/-- Under a limit an activity takes one of its paths, and all of the span if it is cut off. -/
theorem of_limit {span : Nat} {v : Option (Option α)}
    (h : Path view (a.limit span) time s es time' s' v) :
    Path view a time s es time' s' v.join ∧ (v ≠ none → time' ≤ time + span) ∧
      (v = some none → time' = time + span) := by
  induction a generalizing span time s es with
  | done value =>
    cases h with
    | done _ hs => exact ⟨.done value hs, fun _ => Nat.le_add_right _ _, by simp⟩
  | note event rest ih =>
    cases h with
    | note h =>
      obtain ⟨hpath, hend⟩ := ih h
      exact ⟨.note hpath, hend⟩
  | access change rest ih =>
    cases h with
    | access hs h =>
      obtain ⟨hpath, hend⟩ := ih _ _ h
      exact ⟨.access hs hpath, hend⟩
  | wait d rest ih =>
    simp only [Activity.limit] at h
    by_cases hd : d ≤ span ∧ 0 < span
    · rw [if_pos hd] at h
      cases h with
      | wait h =>
        obtain ⟨hpath, hle, hcut⟩ := ih h
        refine ⟨.wait hpath, fun hv => ?_, fun hv => ?_⟩
        · have hrest := hle hv
          omega
        · have hrest := hcut hv
          omega
      | dropped _ _ hle hs => exact ⟨.dropped _ _ hle hs, by simp, by simp⟩
    · rw [if_neg hd] at h
      cases h with
      | wait h =>
        cases h with
        | done _ hs => exact ⟨.dropped _ _ (by omega) hs, fun _ => Nat.le_refl _, fun _ => rfl⟩
      | dropped _ _ hle hs => exact ⟨.dropped _ _ hle hs, by simp, by simp⟩

theorem of_foldr_note {events : List ω} (h : Path view (events.foldr Activity.note a) time s es time' s' v) :
    ∃ rest, Path view a time s rest time' s' v ∧ es = events.map (Prod.mk time) ++ rest := by
  induction events generalizing es with
  | nil => exact ⟨es, h, rfl⟩
  | cons e rest ih =>
    cases h with
    | note h =>
      obtain ⟨es₀, h, hes⟩ := ih h
      exact ⟨es₀, h, by rw [hes]; rfl⟩

theorem of_flatMapEvents {a : Activity σ ω' α} {f : ω' → List ω}
    (h : Path view (a.flatMapEvents f) time s es time' s' v) :
    ∃ es₀, Path view a time s es₀ time' s' v ∧
      es = es₀.flatMap fun e => (f e.2).map (Prod.mk e.1) := by
  induction a generalizing time s es with
  | done value =>
    cases h with
    | done _ hs => exact ⟨[], .done value hs, rfl⟩
  | note event rest ih =>
    obtain ⟨es', hrest, hes⟩ := of_foldr_note h
    obtain ⟨es₀, hpath, hes'⟩ := ih hrest
    exact ⟨_, .note hpath, by rw [hes, hes']; rfl⟩
  | access change rest ih =>
    cases h with
    | access hs h =>
      obtain ⟨es₀, h, hes⟩ := ih _ _ h
      exact ⟨es₀, .access hs h, hes⟩
  | wait d rest ih =>
    cases h with
    | wait h =>
      obtain ⟨es₀, h, hes⟩ := ih h
      exact ⟨es₀, .wait h, hes⟩
    | dropped _ _ hle hs => exact ⟨[], .dropped _ _ hle hs, rfl⟩

theorem of_gather {pick : ω → Option β} {v : Option (α × List β)}
    (h : Path view (a.gather pick) time s es time' s' v) :
    Path view a time s es time' s' (v.map Prod.fst) ∧
      ∀ r, v = some r → r.2 = es.filterMap fun e => pick e.2 := by
  suffices hgo : ∀ picked, Path view (gather.go pick picked a) time s es time' s' v →
      Path view a time s es time' s' (v.map Prod.fst) ∧
        ∀ r, v = some r → r.2 = picked ++ es.filterMap fun e => pick e.2 from hgo [] h
  clear h
  intro picked h
  induction a generalizing time s es picked with
  | done value =>
    cases h with
    | done _ hs => exact ⟨.done value hs, by simp⟩
  | note event rest ih =>
    cases h with
    | note h =>
      obtain ⟨hpath, hpicked⟩ := ih _ h
      refine ⟨.note hpath, fun r hr => (hpicked r hr).trans ?_⟩
      cases hp : pick event <;> simp [hp]
  | access change rest ih =>
    cases h with
    | access hs h =>
      obtain ⟨hpath, hpicked⟩ := ih _ _ _ h
      exact ⟨.access hs hpath, hpicked⟩
  | wait d rest ih =>
    cases h with
    | wait h =>
      obtain ⟨hpath, hpicked⟩ := ih _ h
      exact ⟨.wait hpath, hpicked⟩
    | dropped _ _ hle hs => exact ⟨.dropped _ _ hle hs, by simp⟩

/-- On a part of the state an activity leaves alone what does not depend on that part. -/
theorem aside_of_within {view : τ → γ} {t t' : τ} (get : τ → σ) (put : σ → τ → τ) (aside : τ → δ)
    (hview : ∀ t t', view t = view t' → aside t = aside t')
    (hput : ∀ s t, aside (put s t) = aside t)
    (h : Path view (a.within get put) time t es time' t' v) : aside t = aside t' := by
  induction a generalizing time t es with
  | done value =>
    cases h with
    | done _ ht => exact hview _ _ ht
  | note event rest ih =>
    cases h with
    | note h => exact ih h
  | access change rest ih =>
    cases h with
    | access ht h => exact (hview _ _ ht).trans ((hput _ _).symm.trans (ih _ _ h))
  | wait d rest ih =>
    cases h with
    | wait h => exact ih h
    | dropped _ _ hle ht => exact hview _ _ ht

/-- On a part of the state an activity takes one of its own paths: where the whole is looked at, so is
the part. -/
theorem of_within {view : τ → γ} {look : σ → δ} {t t' : τ} (get : τ → σ) (put : σ → τ → τ)
    (hlook : ∀ t t', view t = view t' → look (get t) = look (get t'))
    (hget : ∀ s t, get (put s t) = s)
    (h : Path view (a.within get put) time t es time' t' v) :
    Path look a time (get t) es time' (get t') v := by
  induction a generalizing time t es with
  | done value =>
    cases h with
    | done _ ht => exact .done value (hlook _ _ ht)
  | note event rest ih =>
    cases h with
    | note h => exact .note (ih h)
  | access change rest ih =>
    cases h with
    | access ht h =>
      have hrest := ih _ _ h
      rw [hget] at hrest
      exact .access (hlook _ _ ht) hrest
  | wait d rest ih =>
    cases h with
    | wait h => exact .wait (ih h)
    | dropped _ _ hle ht => exact .dropped _ _ hle (hlook _ _ ht)

end Path

/-- A value that an activity may come to, whatever others do. -/
def Reaches (a : Activity σ ω α) (value : α) : Prop :=
  ∃ time s es time' s', Path (fun _ => ()) a time s es time' s' (some value)

end PgMetrics.Activity
