/-! # Activities on a clock

An activity is a sequence of instants and waits: at an instant it may leave an event behind or
consult and change the state `σ`; during a wait nothing of its own happens.  Time is counted in
milliseconds and passes only in waits.

`run` carries an activity out from a given time and state.  `limit` gives an activity a span of
time: whatever is due at the very end of the span still happens, up to the next wait, however short,
and there the activity is dropped.  Everything before the cut is untouched by it.
-/
namespace PgMetrics

/-- What is done, one instant or one wait at a time. -/
inductive Activity (σ ω α : Type) : Type where
  | done (value : α)
  | note (event : ω) (rest : Activity σ ω α)
  /-- Changes the state in view of time and state; the rest sees both as they were before. -/
  | access (change : Nat → σ → σ) (rest : Nat → σ → Activity σ ω α)
  | wait (span : Nat) (rest : Activity σ ω α)

namespace Activity

variable {σ τ ω ω' α β : Type}

def bind (a : Activity σ ω α) (next : α → Activity σ ω β) : Activity σ ω β :=
  match a with
  | .done value => next value
  | .note event rest => .note event (rest.bind next)
  | .access change rest => .access change fun now s => (rest now s).bind next
  | .wait span rest => .wait span (rest.bind next)

instance : Monad (Activity σ ω) where
  pure := .done
  bind := .bind

def emit (event : ω) : Activity σ ω Unit := .note event (.done ())

def emitAll (events : List ω) : Activity σ ω Unit := events.foldr .note (.done ())

def now : Activity σ ω Nat := .access (fun _ s => s) fun now _ => .done now

def state : Activity σ ω σ := .access (fun _ s => s) fun _ s => .done s

def modify (change : σ → σ) : Activity σ ω Unit := .access (fun _ => change) fun _ _ => .done ()

/-- Asks the state, which the question may change. -/
def ask (question : Nat → σ → β × σ) : Activity σ ω β :=
  .access (fun now s => (question now s).2) fun now s => .done (question now s).1

def pause (span : Nat) : Activity σ ω Unit := .wait span (.done ())

def flatMapEvents (f : ω → List ω') : Activity σ ω α → Activity σ ω' α
  | .done value => .done value
  | .note event rest => (f event).foldr .note (rest.flatMapEvents f)
  | .access change rest => .access change fun now s => (rest now s).flatMapEvents f
  | .wait span rest => .wait span (rest.flatMapEvents f)

def mapEvents (f : ω → ω') (a : Activity σ ω α) : Activity σ ω' α := a.flatMapEvents fun e => [f e]

def within (get : τ → σ) (put : σ → τ → τ) : Activity σ ω α → Activity τ ω α
  | .done value => .done value
  | .note event rest => .note event (rest.within get put)
  | .access change rest =>
    .access (fun now t => put (change now (get t)) t)
      fun now t => (rest now (get t)).within get put
  | .wait span rest => .wait span (rest.within get put)

/-- The same activity, which also hands over what `pick` finds in its events, in order. -/
def gather (pick : ω → Option β) (a : Activity σ ω α) : Activity σ ω (α × List β) :=
  go [] a
where
  /-- What has been picked so far comes first. -/
  go (picked : List β) : Activity σ ω α → Activity σ ω (α × List β)
    | .done value => .done (value, picked)
    | .note event rest =>
      .note event (go (match pick event with | some b => picked ++ [b] | none => picked) rest)
    | .access change rest => .access change fun now s => go picked (rest now s)
    | .wait span rest => .wait span (go picked rest)

/-- The activity for a span of time only: `none` where it would have to wait beyond its end. -/
def limit (span : Nat) : Activity σ ω α → Activity σ ω (Option α)
  | .done value => .done (some value)
  | .note event rest => .note event (rest.limit span)
  | .access change rest => .access change fun now s => (rest now s).limit span
  | .wait d rest =>
    if d ≤ span ∧ 0 < span then .wait d (rest.limit (span - d)) else .wait span (.done none)

structure Outcome (σ ω α : Type) where
  time : Nat
  state : σ
  events : List ω
  value : α
  deriving Repr

def run (time : Nat) (s : σ) : Activity σ ω α → Outcome σ ω α
  | .done value => ⟨time, s, [], value⟩
  | .note event rest =>
    let o := rest.run time s
    { o with events := event :: o.events }
  | .access change rest => (rest time s).run time (change time s)
  | .wait span rest => rest.run (time + span) s

def runAll (time : Nat) (s : σ) : List (Activity σ ω α) → List (Outcome σ ω α)
  | [] => []
  | a :: rest =>
    let o := a.run time s
    o :: runAll o.time o.state rest

@[simp] theorem run_done (time : Nat) (s : σ) (value : α) :
    (done value : Activity σ ω α).run time s = ⟨time, s, [], value⟩ := rfl

@[simp] theorem run_pure (time : Nat) (s : σ) (value : α) :
    (pure value : Activity σ ω α).run time s = ⟨time, s, [], value⟩ := rfl

@[simp] theorem run_bind (a : Activity σ ω α) (next : α → Activity σ ω β) (time : Nat) (s : σ) :
    (a >>= next).run time s =
      let o := a.run time s
      let p := (next o.value).run o.time o.state
      ⟨p.time, p.state, o.events ++ p.events, p.value⟩ := by
  change (a.bind next).run time s = _
  induction a generalizing time s with
  | done value => rfl
  | note event rest ih => simp [bind, run, ih]
  | access change rest ih => simp [bind, run, ih]
  | wait span rest ih => simp [bind, run, ih]

@[simp] theorem run_emitAll (time : Nat) (s : σ) (events : List ω) :
    (emitAll events : Activity σ ω Unit).run time s = ⟨time, s, events, ()⟩ := by
  induction events with
  | nil => rfl
  | cons e rest ih =>
    change (note e (emitAll rest)).run time s = _
    simp [run, ih]

theorem time_le_run (a : Activity σ ω α) (time : Nat) (s : σ) : time ≤ (a.run time s).time := by
  induction a generalizing time s with
  | done value => exact Nat.le_refl _
  | note event rest ih => exact ih time s
  | access change rest ih => exact ih _ _ _ _
  | wait span rest ih => exact Nat.le_trans (Nat.le_add_right _ _) (ih _ _)

theorem run_limit_time_le (a : Activity σ ω α) (span time : Nat) (s : σ) :
    ((a.limit span).run time s).time ≤ time + span := by
  induction a generalizing span time s with
  | done value => exact Nat.le_add_right _ _
  | note event rest ih => exact ih span time s
  | access change rest ih => exact ih _ _ _ _ _
  | wait d rest ih =>
    simp only [limit]
    split
    · have := ih (span - d) (time + d) s
      simp only [run]
      omega
    · exact Nat.le_refl _

/-- A shorter span cuts a beginning off: the events under it are the first ones under a longer. -/
theorem events_run_limit_mono (a : Activity σ ω α) {short long : Nat} (h : short ≤ long)
    (time : Nat) (s : σ) :
    ((a.limit short).run time s).events <+: ((a.limit long).run time s).events := by
  induction a generalizing short long time s with
  | done value => exact List.prefix_rfl
  | note event rest ih => exact List.cons_prefix_cons.mpr ⟨rfl, ih h time s⟩
  | access change rest ih => exact ih _ _ h _ _
  | wait d rest ih =>
    simp only [limit]
    by_cases hs : d ≤ short ∧ 0 < short
    · have hl : d ≤ long ∧ 0 < long := ⟨Nat.le_trans hs.1 h, Nat.lt_of_lt_of_le hs.2 h⟩
      simp only [hs, hl, and_self, if_true, run]
      exact ih (Nat.sub_le_sub_right h d) _ _
    · simp only [hs, if_false, run]
      exact List.nil_prefix

end Activity
end PgMetrics
