import PgMetrics.Proofs.Activity.Path
import PgMetrics.Service.Traffic

/-! # Threads

An activity that is carried out one instant at a time, while others change its state in between, takes
one of its paths: what is left of it always completes one.  Others do not disturb what a `view` shows
if all that they do spares it.
-/
namespace PgMetrics

open Activity (Path)

variable {σ τ ω ω' α β γ δ : Type}

namespace Activity

def Spares (view : σ → γ) : Activity σ ω α → Prop
  | .done _ => True
  | .note _ rest => rest.Spares view
  | .access change rest => ∀ now s, view (change now s) = view s ∧ (rest now s).Spares view
  | .wait _ rest => rest.Spares view

theorem Spares.bind {view : σ → γ} {a : Activity σ ω α} {next : α → Activity σ ω β}
    (ha : a.Spares view) (hnext : ∀ x, (next x).Spares view) : (a >>= next).Spares view := by
  change (a.bind next).Spares view
  induction a with
  | done value => exact hnext value
  | note event rest ih => exact ih ha
  | access change rest ih => exact fun now s => ⟨(ha now s).1, ih now s (ha now s).2⟩
  | wait d rest ih => exact ih ha

theorem spares_pure {view : σ → γ} (value : α) :
    (pure value : Activity σ ω α).Spares view := trivial

theorem spares_const (c : γ) (a : Activity σ ω α) : a.Spares fun _ => c := by
  induction a with
  | done value => trivial
  | note event rest ih => exact ih
  | access change rest ih => exact fun now s => ⟨rfl, ih now s⟩
  | wait d rest ih => exact ih

theorem Spares.flatMapEvents {view : σ → γ} {a : Activity σ ω α} (ha : a.Spares view)
    (f : ω → List ω') : (a.flatMapEvents f).Spares view := by
  induction a with
  | done value => trivial
  | note event rest ih =>
    rw [Activity.flatMapEvents]
    induction f event with
    | nil => exact ih ha
    | cons e es ihes => exact ihes
  | access change rest ih => exact fun now s => ⟨(ha now s).1, ih now s (ha now s).2⟩
  | wait d rest ih => exact ih ha

theorem Spares.within {view : σ → γ} {view' : τ → δ} {get : τ → σ} {put : σ → τ → τ}
    {a : Activity σ ω α} (ha : a.Spares view)
    (hput : ∀ s t, view s = view (get t) → view' (put s t) = view' t) :
    (a.within get put).Spares view' := by
  induction a with
  | done value => trivial
  | note event rest ih => exact ih ha
  | access change rest ih =>
    exact fun now t => ⟨hput _ t (ha now (get t)).1, ih now (get t) (ha now (get t)).2⟩
  | wait d rest ih => exact ih ha

end Activity

namespace Thread

variable {view : σ → γ} {a : Activity σ ω α} {since time : Nat} {found s s₁ : σ}
  {t : Thread σ ω α}

theorem spares_step (h : t.rest.Spares view) (time : Nat) (s : σ) :
    view s = view (t.step time s).2 ∧ (t.step time s).1.rest.Spares view := by
  obtain ⟨due, rest, log⟩ := t
  unfold step
  by_cases hdue : due ≤ time
  · rw [if_pos hdue]
    cases rest with
    | done value => exact ⟨rfl, trivial⟩
    | note event rest => exact ⟨rfl, h⟩
    | access change rest => exact ⟨(h time s).1.symm, (h time s).2⟩
    | wait span rest => exact ⟨rfl, h⟩
  · rw [if_neg hdue]
    exact ⟨rfl, h⟩

/-- What is left of a thread completes a path of the activity begun then. -/
def Follows (view : σ → γ) (a : Activity σ ω α) (since : Nat) (found : σ) (t : Thread σ ω α)
    (s : σ) : Prop :=
  ∀ es time' s' v, Path view t.rest t.due s es time' s' v →
    Path view a since found (t.log ++ es) time' s' v

theorem Follows.others (h : Follows view a since found t s) (hs : view s = view s₁) :
    Follows view a since found t s₁ :=
  fun es time' s' v hpath => h es time' s' v (hpath.of_others hs)

theorem Follows.step (h : Follows view a since found t s) (hdue : time ≤ t.due) :
    Follows view a since found (t.step time s).1 (t.step time s).2 ∧
      time ≤ (t.step time s).1.due := by
  unfold Thread.step
  by_cases hnow : t.due ≤ time
  · have hdue : t.due = time := by omega
    subst hdue
    obtain ⟨due, rest, log⟩ := t
    rw [if_pos hnow]
    cases rest with
    | done value => exact ⟨h, Nat.le_refl _⟩
    | note event rest =>
      refine ⟨fun es time' s' v hpath => ?_, Nat.le_refl _⟩
      have hall := h _ time' s' v (.note hpath)
      rwa [List.append_assoc]
    | access change rest =>
      exact ⟨fun es time' s' v hpath => h es time' s' v (.access rfl hpath), Nat.le_refl _⟩
    | wait span rest =>
      exact ⟨fun es time' s' v hpath => h es time' s' v (.wait hpath), Nat.le_add_right _ _⟩
  · rw [if_neg hnow]
    exact ⟨h, hdue⟩

/-- A thread that is over has taken a path to its end. -/
theorem Follows.path {v : α} (h : Follows view a since found t s) (hv : t.value? time = some v) :
    t.due ≤ time ∧ Path view a since found t.log t.due s (some v) := by
  obtain ⟨due, rest, log⟩ := t
  cases rest with
  | done value =>
    simp only [value?] at hv
    split at hv
    · rename_i hdue
      have hpath := h [] due s (some value) (.done value rfl)
      rw [List.append_nil] at hpath
      cases hv
      exact ⟨hdue, hpath⟩
    · cases hv
  | note | access | wait => cases hv

theorem over_of_value? (h : t.value? time ≠ none) : (∃ v, t.rest = .done v) ∧ t.due ≤ time := by
  obtain ⟨due, rest, log⟩ := t
  cases rest with
  | done value =>
    by_cases hdue : due ≤ time
    · exact ⟨⟨value, rfl⟩, hdue⟩
    · simp [value?, hdue] at h
  | note | access | wait => exact absurd rfl h

theorem value?_of_over (h : (∃ v, t.rest = .done v) ∧ t.due ≤ time) : t.value? time ≠ none := by
  obtain ⟨⟨v, hv⟩, hdue⟩ := h
  simp [value?, hv, hdue]

theorem step_of_over (h : t.value? time ≠ none) (s : σ) : t.step time s = (t, s) := by
  obtain ⟨⟨v, hv⟩, hdue⟩ := over_of_value? h
  simp only [step, hdue, if_true, hv]

/-- The log of a thread begins the log of a path. -/
theorem Follows.exists_path (h : Follows view a since found t s) :
    ∃ es time' s' v, Path view a since found (t.log ++ es) time' s' (some v) :=
  ⟨_, _, _, _, h _ _ _ _ (Path.of_run view t.rest t.due s)⟩

end Thread

end PgMetrics
