import PgMetrics.Activity
import Mathlib.Data.List.Basic

/-! # Runs of composed activities

One equation for each way to build an activity says what its run comes to in terms of the runs of
its parts.  Replacing events, working on a part of a larger state and gathering events leave time
and waits alone, so they commute with a limit; a limited sequence spends on its second part what
the first part has left of the span.
-/
namespace PgMetrics.Activity

variable {σ τ ω ω' α β : Type}

theorem bind_pure (a : Activity σ ω α) : a >>= pure = a := by
  change a.bind .done = a
  induction a with
  | done value => rfl
  | note event rest ih => exact congrArg (note event) ih
  | access change rest ih => exact congrArg (access change) (funext₂ ih)
  | wait span rest ih => exact congrArg (wait span) ih

theorem bind_assoc {γ : Type} (a : Activity σ ω α) (f : α → Activity σ ω β)
    (g : β → Activity σ ω γ) : a >>= f >>= g = a >>= fun x => f x >>= g := by
  change (a.bind f).bind g = a.bind fun x => (f x).bind g
  induction a with
  | done value => rfl
  | note event rest ih => exact congrArg (note event) ih
  | access change rest ih => exact congrArg (access change) (funext₂ ih)
  | wait span rest ih => exact congrArg (wait span) ih

@[simp] theorem run_emit (event : ω) (time : Nat) (s : σ) :
    (emit event : Activity σ ω Unit).run time s = ⟨time, s, [event], ()⟩ := rfl

@[simp] theorem run_now (time : Nat) (s : σ) :
    (now : Activity σ ω Nat).run time s = ⟨time, s, [], time⟩ := rfl

@[simp] theorem run_modify (change : σ → σ) (time : Nat) (s : σ) :
    (modify change : Activity σ ω Unit).run time s = ⟨time, change s, [], ()⟩ := rfl

@[simp] theorem run_ask (question : Nat → σ → β × σ) (time : Nat) (s : σ) :
    (ask question : Activity σ ω β).run time s =
      ⟨time, (question time s).2, [], (question time s).1⟩ := rfl

theorem run_foldr_note (events : List ω) (a : Activity σ ω α) (time : Nat) (s : σ) :
    (events.foldr note a).run time s =
      { a.run time s with events := events ++ (a.run time s).events } := by
  induction events with
  | nil => rfl
  | cons e rest ih => simp [run, ih]

@[simp] theorem run_flatMapEvents (f : ω → List ω') (a : Activity σ ω α) (time : Nat) (s : σ) :
    (a.flatMapEvents f).run time s =
      let o := a.run time s
      ⟨o.time, o.state, o.events.flatMap f, o.value⟩ := by
  induction a generalizing time s with
  | done value => rfl
  | note event rest ih => simp [flatMapEvents, run_foldr_note, run, ih]
  | access change rest ih => simp [flatMapEvents, run, ih]
  | wait span rest ih => simp [flatMapEvents, run, ih]

theorem foldr_note_bind (events : List ω) (a : Activity σ ω α) (next : α → Activity σ ω β) :
    events.foldr note a >>= next = events.foldr note (a >>= next) := by
  induction events with
  | nil => rfl
  | cons e rest ih => exact congrArg (note e) ih

theorem flatMapEvents_bind (f : ω → List ω') (a : Activity σ ω α) (next : α → Activity σ ω β) :
    (a >>= next).flatMapEvents f = a.flatMapEvents f >>= fun x => (next x).flatMapEvents f := by
  change (a.bind next).flatMapEvents f = _
  induction a with
  | done value => rfl
  | note event rest ih =>
    rw [bind, flatMapEvents, ih, flatMapEvents, foldr_note_bind]
  | access change rest ih => exact congrArg (access change) (funext₂ ih)
  | wait span rest ih => exact congrArg (wait span) ih

@[simp] theorem mapEvents_bind (f : ω → ω') (a : Activity σ ω α) (next : α → Activity σ ω β) :
    (a >>= next).mapEvents f = a.mapEvents f >>= fun x => (next x).mapEvents f :=
  flatMapEvents_bind _ a next

@[simp] theorem mapEvents_emit (f : ω → ω') (event : ω) :
    (emit event : Activity σ ω Unit).mapEvents f = emit (f event) := rfl

@[simp] theorem mapEvents_now (f : ω → ω') : (now : Activity σ ω Nat).mapEvents f = now := rfl

theorem mapEvents_mapEvents {ω'' : Type} (g : ω' → ω'') (f : ω → ω') (a : Activity σ ω α) :
    (a.mapEvents f).mapEvents g = a.mapEvents fun e => g (f e) := by
  induction a with
  | done value => rfl
  | note event rest ih => exact congrArg (note (g (f event))) ih
  | access change rest ih => exact congrArg (access change) (funext₂ ih)
  | wait span rest ih => exact congrArg (wait span) ih

theorem mapEvents_id (a : Activity σ ω α) : a.mapEvents (fun e => e) = a := by
  induction a with
  | done value => rfl
  | note event rest ih => exact congrArg (note event) ih
  | access change rest ih => exact congrArg (access change) (funext₂ ih)
  | wait span rest ih => exact congrArg (wait span) ih

@[simp] theorem run_mapEvents (f : ω → ω') (a : Activity σ ω α) (time : Nat) (s : σ) :
    (a.mapEvents f).run time s =
      let o := a.run time s
      ⟨o.time, o.state, o.events.map f, o.value⟩ := by
  simp only [mapEvents, run_flatMapEvents, List.map_eq_flatMap]

@[simp] theorem run_gather (pick : ω → Option β) (a : Activity σ ω α) (time : Nat) (s : σ) :
    (a.gather pick).run time s =
      let o := a.run time s
      ⟨o.time, o.state, o.events, (o.value, o.events.filterMap pick)⟩ := by
  suffices h : ∀ picked, (gather.go pick picked a).run time s =
      let o := a.run time s
      ⟨o.time, o.state, o.events, (o.value, picked ++ o.events.filterMap pick)⟩ by
    simpa [gather] using h []
  intro picked
  induction a generalizing time s picked with
  | done value => simp [gather.go]
  | note event rest ih => cases h : pick event <;> simp [gather.go, run, ih, h]
  | access change rest ih => simp [gather.go, run, ih]
  | wait span rest ih => simp [gather.go, run, ih]

section Within
variable (get : τ → σ) (put : σ → τ → τ)

/-- An activity on a part leaves the rest of the state as it was. -/
theorem run_within (hget : ∀ s t, get (put s t) = s) (hput : ∀ s s' t, put s (put s' t) = put s t)
    (hself : ∀ t, put (get t) t = t) (a : Activity σ ω α) (time : Nat) (t : τ) :
    (a.within get put).run time t =
      let o := a.run time (get t)
      ⟨o.time, put o.state t, o.events, o.value⟩ := by
  induction a generalizing time t with
  | done value => simp [within, hself]
  | note event rest ih => simp [within, run, ih]
  | access change rest ih => simp [within, run, ih, hget, hput]
  | wait span rest ih => simp [within, run, ih]

theorem limit_within (a : Activity σ ω α) (span : Nat) :
    (a.within get put).limit span = (a.limit span).within get put := by
  induction a generalizing span with
  | done value => rfl
  | note event rest ih => simp [within, limit, ih]
  | access change rest ih => simp [within, limit, ih]
  | wait d rest ih => simp only [within, limit]; split <;> simp [within, ih]

end Within

theorem limit_foldr_note (events : List ω) (a : Activity σ ω α) (span : Nat) :
    (events.foldr note a).limit span = events.foldr note (a.limit span) := by
  induction events with
  | nil => rfl
  | cons e rest ih => simp [limit, ih]

theorem limit_flatMapEvents (f : ω → List ω') (a : Activity σ ω α) (span : Nat) :
    (a.flatMapEvents f).limit span = (a.limit span).flatMapEvents f := by
  induction a generalizing span with
  | done value => rfl
  | note event rest ih => simp [flatMapEvents, limit, limit_foldr_note, ih]
  | access change rest ih => simp [flatMapEvents, limit, ih]
  | wait d rest ih => simp only [flatMapEvents, limit]; split <;> simp [flatMapEvents, ih]

/-- What has been gathered is handed over only by an activity that comes to its end. -/
theorem run_limit_gather (pick : ω → Option β) (a : Activity σ ω α) (span time : Nat) (s : σ) :
    ((a.gather pick).limit span).run time s =
      let o := (a.limit span).run time s
      ⟨o.time, o.state, o.events, o.value.map fun v => (v, o.events.filterMap pick)⟩ := by
  suffices h : ∀ picked, ((gather.go pick picked a).limit span).run time s =
      let o := (a.limit span).run time s
      ⟨o.time, o.state, o.events, o.value.map fun v => (v, picked ++ o.events.filterMap pick)⟩ by
    simpa [gather] using h []
  intro picked
  induction a generalizing span time s picked with
  | done value => simp [gather.go, limit]
  | note event rest ih => cases h : pick event <;> simp [gather.go, limit, run, ih, h]
  | access change rest ih => simp [gather.go, limit, run, ih]
  | wait d rest ih => simp only [gather.go, limit]; split <;> simp [run, ih]

/-- Under a limit the second of two activities begins only if the first one has come to its end, and
it has the rest of the span. -/
theorem run_limit_bind (a : Activity σ ω α) (next : α → Activity σ ω β) (span time : Nat) (s : σ) :
    ((a >>= next).limit span).run time s =
      let o := (a.limit span).run time s
      match o.value with
      | none => ⟨o.time, o.state, o.events, none⟩
      | some v =>
        let p := ((next v).limit (span - (o.time - time))).run o.time o.state
        ⟨p.time, p.state, o.events ++ p.events, p.value⟩ := by
  change ((a.bind next).limit span).run time s = _
  induction a generalizing span time s with
  | done value => simp [bind, limit]
  | note event rest ih =>
    simp only [bind, limit, run, ih]
    split <;> simp
  | access change rest ih => simp only [bind, limit, run, ih]
  | wait d rest ih =>
    simp only [bind, limit]
    by_cases hd : d ≤ span ∧ 0 < span
    · have hle := time_le_run (rest.limit (span - d)) (time + d) s
      simp only [hd, and_self, if_true, run, ih]
      split
      · rfl
      · have hspan : span - d - (((rest.limit (span - d)).run (time + d) s).time - (time + d)) =
            span - (((rest.limit (span - d)).run (time + d) s).time - time) := by omega
        rw [hspan]
    · simp [hd, run]

theorem run_limit_bind_of_none {a : Activity σ ω α} {next : α → Activity σ ω β}
    {span time : Nat} {s : σ} (h : ((a.limit span).run time s).value = none) :
    ((a >>= next).limit span).run time s =
      let o := (a.limit span).run time s
      ⟨o.time, o.state, o.events, none⟩ := by
  rw [run_limit_bind]
  simp only [h]

theorem run_limit_bind_of_some {a : Activity σ ω α} {next : α → Activity σ ω β}
    {span time : Nat} {s : σ} {v : α} (h : ((a.limit span).run time s).value = some v) :
    ((a >>= next).limit span).run time s =
      let o := (a.limit span).run time s
      let p := ((next v).limit (span - (o.time - time))).run o.time o.state
      ⟨p.time, p.state, o.events ++ p.events, p.value⟩ := by
  rw [run_limit_bind]
  simp only [h]

section Instants
variable (span time : Nat) (s : σ)

@[simp] theorem run_limit_pure (value : α) :
    ((pure value : Activity σ ω α).limit span).run time s = ⟨time, s, [], some value⟩ := rfl

@[simp] theorem run_limit_emit (event : ω) :
    ((emit event : Activity σ ω Unit).limit span).run time s = ⟨time, s, [event], some ()⟩ := rfl

theorem run_limit_emit_bind (event : ω) (next : Unit → Activity σ ω β) :
    ((emit event >>= next).limit span).run time s =
      { ((next ()).limit span).run time s with
        events := event :: (((next ()).limit span).run time s).events } := rfl

theorem run_limit_now_bind (next : Nat → Activity σ ω β) :
    ((now >>= next).limit span).run time s = ((next time).limit span).run time s := rfl

@[simp] theorem run_limit_emitAll (events : List ω) :
    ((emitAll events : Activity σ ω Unit).limit span).run time s =
      ⟨time, s, events, some ()⟩ := by
  rw [emitAll, limit_foldr_note, run_foldr_note]
  simp [limit]

@[simp] theorem run_limit_now :
    ((now : Activity σ ω Nat).limit span).run time s = ⟨time, s, [], some time⟩ := rfl

@[simp] theorem run_limit_modify (change : σ → σ) :
    ((modify change : Activity σ ω Unit).limit span).run time s =
      ⟨time, change s, [], some ()⟩ := rfl

@[simp] theorem run_limit_ask (question : Nat → σ → β × σ) :
    ((ask question : Activity σ ω β).limit span).run time s =
      ⟨time, (question time s).2, [], some (question time s).1⟩ := rfl

end Instants

end PgMetrics.Activity
