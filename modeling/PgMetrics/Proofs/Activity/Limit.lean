import PgMetrics.Proofs.Activity.Run

/-! # Activities that need no limit

What happens under a limit is a beginning of what happens without one, and all of it if the activity
ends by the deadline.  What ends right then is dropped only if it still waits there, however
shortly: a wait of no length is over after all that is due at the same time.
-/
namespace PgMetrics.Activity

variable {σ ω α β : Type}

theorem events_run_limit_isPrefix (a : Activity σ ω α) (span time : Nat) (s : σ) :
    ((a.limit span).run time s).events <+: (a.run time s).events := by
  induction a generalizing span time s with
  | done value => exact List.prefix_rfl
  | note event rest ih => exact List.cons_prefix_cons.mpr ⟨rfl, ih span time s⟩
  | access change rest ih => exact ih _ _ _ _ _
  | wait d rest ih =>
    simp only [limit]
    split
    · exact ih _ _ _
    · exact List.nil_prefix

def pauses (time : Nat) (s : σ) : Activity σ ω α → List Nat
  | .done _ => []
  | .note _ rest => rest.pauses time s
  | .access change rest => (rest time s).pauses time (change time s)
  | .wait span rest => time :: rest.pauses (time + span) s

theorem le_of_mem_pauses {a : Activity σ ω α} {time t : Nat} {s : σ} (h : t ∈ a.pauses time s) :
    t ≤ (a.run time s).time := by
  induction a generalizing time s with
  | done value => cases h
  | note event rest ih => exact ih h
  | access change rest ih => exact ih _ _ h
  | wait d rest ih =>
    rcases List.mem_cons.mp h with rfl | h
    · exact time_le_run (.wait d rest) _ s
    · exact ih h

/-- A run ends by the deadline, and does not wait there once more. -/
def EndsWithin (span : Nat) (a : Activity σ ω α) (time : Nat) (s : σ) : Prop :=
  (a.run time s).time ≤ time + span ∧ time + span ∉ a.pauses time s

theorem EndsWithin.of_lt {a : Activity σ ω α} {span time : Nat} {s : σ}
    (h : (a.run time s).time < time + span) : EndsWithin span a time s := by
  refine ⟨Nat.le_of_lt h, fun hpause => ?_⟩
  have hle := le_of_mem_pauses hpause
  omega

/-- An activity comes to its end under a limit exactly if its run ends within it. -/
theorem run_limit_ne_none_iff (a : Activity σ ω α) (span time : Nat) (s : σ) :
    ((a.limit span).run time s).value ≠ none ↔ EndsWithin span a time s := by
  induction a generalizing span time s with
  | done value => simp [limit, EndsWithin, pauses]
  | note event rest ih => exact ih span time s
  | access change rest ih => exact ih _ _ _ _ _
  | wait d rest ih =>
    simp only [limit]
    split
    · rename_i hd
      have hdeadline : time + d + (span - d) = time + span := by omega
      have hnow : time + span ≠ time := by omega
      have hrest := ih (span - d) (time + d) s
      simpa only [EndsWithin, pauses, run, hdeadline, List.mem_cons, hnow, false_or] using hrest
    · rename_i hd
      have hlate := time_le_run rest (time + d) s
      simp only [run, ne_eq, not_true_eq_false, EndsWithin, pauses, List.mem_cons, false_iff]
      rintro ⟨hle, hpause⟩
      have hspan : time + span ≠ time := fun h => hpause (Or.inl h)
      omega

/-- A run that comes to its end under a limit is the run without one. -/
theorem run_limit_of_some {a : Activity σ ω α} {span time : Nat} {s : σ}
    (h : ((a.limit span).run time s).value ≠ none) :
    (a.limit span).run time s =
        (let o := a.run time s
         ⟨o.time, o.state, o.events, some o.value⟩) ∧
      (a.limit span).pauses time s = a.pauses time s := by
  induction a generalizing span time s with
  | done value => exact ⟨rfl, rfl⟩
  | note event rest ih =>
    obtain ⟨hrun, hpauses⟩ := ih h
    exact ⟨by simp only [limit, run, hrun], hpauses⟩
  | access change rest ih => exact ih _ _ h
  | wait d rest ih =>
    simp only [limit] at h ⊢
    split at h
    · rename_i hd
      obtain ⟨hrun, hpauses⟩ := ih h
      simp only [hd, and_self, if_true, run, pauses, hrun, hpauses]
    · exact absurd rfl h

/-- Under a limit that is long enough an activity runs as it does without one. -/
theorem exists_run_limit (a : Activity σ ω α) (time : Nat) (s : σ) :
    ∃ span, (a.limit span).run time s =
      (let o := a.run time s
       ⟨o.time, o.state, o.events, some o.value⟩) := by
  have hlate := time_le_run a time s
  have hends : a.EndsWithin ((a.run time s).time - time + 1) time s := .of_lt (by omega)
  exact ⟨_, (run_limit_of_some ((a.run_limit_ne_none_iff _ _ _).mpr hends)).1⟩

end PgMetrics.Activity
