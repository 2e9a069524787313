import Mathlib.Data.List.Basic
import Mathlib.Data.List.Induction
import Mathlib.Data.List.Nodup

/-! # Distinct elements in first-seen order

A loop that keeps what it has not seen yet leaves every element of its input once, ordered by where
it first occurs.  This determines the result: the order by first index is strict, so two lists of
the same elements that follow it are equal.
-/
namespace PgMetrics

variable {α : Type} [DecidableEq α] {xs xs' ys zs : List α}

/-- `ys` are the elements of `xs`, each once, in the order in which they first occur. -/
structure FirstSeen (xs ys : List α) : Prop where
  mem_iff (a : α) : a ∈ ys ↔ a ∈ xs
  ordered : ys.Pairwise fun a b => xs.idxOf a < xs.idxOf b

namespace FirstSeen

theorem nil : FirstSeen ([] : List α) [] := ⟨fun _ => Iff.rfl, List.Pairwise.nil⟩

theorem nodup (h : FirstSeen xs ys) : ys.Nodup := by
  refine h.ordered.imp ?_
  rintro a _ hlt rfl
  omega

/-- One turn of the loop. -/
theorem concat (h : FirstSeen xs ys) (a : α) :
    FirstSeen (xs ++ [a]) (if a ∈ ys then ys else ys ++ [a]) := by
  have hold : ∀ b ∈ ys, (xs ++ [a]).idxOf b = xs.idxOf b :=
    fun b hb => List.idxOf_append_of_mem ((h.mem_iff b).mp hb)
  have hordered : ys.Pairwise fun b c => (xs ++ [a]).idxOf b < (xs ++ [a]).idxOf c := by
    refine h.ordered.imp_of_mem ?_
    intro b c hb hc hlt
    rwa [hold b hb, hold c hc]
  by_cases ha : a ∈ ys
  · rw [if_pos ha]
    refine ⟨fun b => ?_, hordered⟩
    rw [h.mem_iff, List.mem_append, List.mem_singleton]
    exact ⟨Or.inl, fun hb => hb.elim id fun heq => heq ▸ (h.mem_iff a).mp ha⟩
  · rw [if_neg ha]
    refine ⟨fun b => ?_, ?_⟩
    · rw [List.mem_append, List.mem_append, h.mem_iff]
    · refine List.pairwise_append.mpr ⟨hordered, List.pairwise_singleton _ _, ?_⟩
      intro b hb c hc
      obtain rfl := List.mem_singleton.mp hc
      have hbefore : xs.idxOf b < xs.length := List.idxOf_lt_length_iff.mpr ((h.mem_iff b).mp hb)
      have hnew : c ∉ xs := fun hmem => ha ((h.mem_iff c).mpr hmem)
      rw [hold b hb, List.idxOf_append_of_notMem hnew]
      omega

/-- Distinct elements are in the order in which they first occur. -/
theorem of_nodup (h : ys.Nodup) : FirstSeen ys ys := by
  induction ys using List.reverseRecOn with
  | nil => exact nil
  | append_singleton rest a ih =>
    obtain ⟨hrest, -, hne⟩ := List.nodup_append.mp h
    have ha : a ∉ rest := fun hmem => hne a hmem a List.mem_cons_self rfl
    have hstep := (ih hrest).concat a
    rwa [if_neg ha] at hstep

/-- The elements alone decide the result up to its order. -/
theorem perm (h : FirstSeen xs ys) (h' : FirstSeen xs' zs) (hsame : ∀ a, a ∈ xs ↔ a ∈ xs') :
    ys.Perm zs := by
  rw [List.perm_ext_iff_of_nodup h.nodup h'.nodup]
  intro a
  rw [h.mem_iff, h'.mem_iff, hsame]

theorem unique (h : FirstSeen xs ys) (h' : FirstSeen xs zs) : ys = zs := by
  apply List.Perm.eq_of_pairwise ?_ h.ordered h'.ordered (h.perm h' fun _ => Iff.rfl)
  intro a b _ _ hab hba
  omega

end FirstSeen
end PgMetrics
