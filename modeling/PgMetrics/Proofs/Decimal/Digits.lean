import PgMetrics.Decimal.Shortest
import Mathlib.Data.List.Basic

/-! # How a decimal is spelled

The text of a double is one word: digits, at most a sign and a point, or the name of an infinity or
of what is no number.
-/
namespace PgMetrics.Decimal

def isSpelling (c : Char) : Bool := c.isAlphanum || c == '-' || c == '.'

def Spelled (cs : List Char) : Prop := cs ≠ [] ∧ ∀ c ∈ cs, isSpelling c = true

theorem spelled_of_all {cs : List Char} (hne : cs ≠ []) (h : cs.all isSpelling = true) :
    Spelled cs :=
  ⟨hne, List.all_eq_true.mp h⟩

theorem Spelled.append {l₁ l₂ : List Char} (h : Spelled l₁) (h₂ : ∀ c ∈ l₂, isSpelling c = true) :
    Spelled (l₁ ++ l₂) :=
  ⟨List.append_ne_nil_of_left_ne_nil h.1 _, List.forall_mem_append.mpr ⟨h.2, h₂⟩⟩

theorem Spelled.cons {c : Char} {l : List Char} (hc : isSpelling c = true) (h : Spelled l) :
    Spelled (c :: l) :=
  ⟨List.cons_ne_nil _ _, List.forall_mem_cons.mpr ⟨hc, h.2⟩⟩

theorem spelled_digits (n : Nat) : Spelled (digits n) := by
  refine ⟨Nat.toDigits_ne_nil, ?_⟩
  intro c hc
  have hdigit : c.isDigit = true := Nat.isDigit_of_mem_toDigits (by decide) (by decide) hc
  simp [isSpelling, Char.isAlphanum, hdigit]

theorem isSpelling_zeros (n : Nat) : ∀ c ∈ List.replicate n '0', isSpelling c = true := by
  intro c hc
  rw [List.eq_of_mem_replicate hc]
  decide

theorem mem_of_mem_dropEndWhile {α : Type} {p : α → Bool} {l : List α} {a : α}
    (h : a ∈ Text.dropEndWhile p l) : a ∈ l := by
  induction l with
  | nil => exact h
  | cons b rest ih =>
    unfold Text.dropEndWhile at h
    split at h
    · split at h
      · cases h
      · rw [List.mem_singleton] at h
        rw [h]
        exact List.mem_cons_self
    · rcases List.mem_cons.mp h with rfl | h
      · exact List.mem_cons_self
      · exact List.mem_cons_of_mem _ (ih h)

theorem spelled_positional (point : Nat) (exponent : Int) :
    Spelled (positional point exponent) := by
  unfold positional
  dsimp only
  split
  · exact (spelled_digits point).append (isSpelling_zeros _)
  · generalize (-exponent).toNat = places
    have hlength : places <
        (List.replicate (places + 1 - (digits point).length) '0' ++ digits point).length := by
      rw [List.length_append, List.length_replicate]
      omega
    have hpadded : ∀ c ∈ List.replicate (places + 1 - (digits point).length) '0' ++ digits point,
        isSpelling c = true :=
      List.forall_mem_append.mpr ⟨isSpelling_zeros _, (spelled_digits point).2⟩
    generalize List.replicate (places + 1 - (digits point).length) '0' ++ digits point = padded
      at hlength hpadded
    have hwhole : Spelled (padded.take (padded.length - places)) := by
      refine ⟨?_, fun c hc => hpadded c (List.mem_of_mem_take hc)⟩
      rw [Ne, List.take_eq_nil_iff, ← List.length_eq_zero_iff]
      omega
    split
    · exact hwhole
    · refine hwhole.append (List.forall_mem_cons.mpr ⟨by decide, fun c hc => hpadded c ?_⟩)
      exact List.mem_of_mem_drop (mem_of_mem_dropEndWhile hc)

theorem spelled_text (x : Float) : Spelled (text x).toList := by
  unfold text
  cases Parts.ofBits x.toBits with
  | nan => exact spelled_of_all (by decide) (by decide)
  | infinite negative => cases negative <;> exact spelled_of_all (by decide) (by decide)
  | finite negative m q atPower =>
    have hbody : Spelled (if m = 0 then ['0'] else
        positional (shortest m q atPower).1 (shortest m q atPower).2) := by
      split
      · exact spelled_of_all (by decide) (by decide)
      · exact spelled_positional _ _
    simp only [Parts.text, String.toList_ofList]
    split
    · exact hbody.cons (by decide)
    · exact hbody

end PgMetrics.Decimal
