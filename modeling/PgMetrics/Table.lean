/-! # Tables

A finite table from keys to values, its entries in the order in which the keys were first put.
Putting a key again replaces its value and keeps its place.
-/
namespace PgMetrics

/-- A finite table; no key occurs twice in one that `put` built. -/
structure Table (κ β : Type) where
  entries : List (κ × β) := []
  deriving Repr, BEq

namespace Table

variable {κ β : Type} [DecidableEq κ]

def empty : Table κ β := {}

def get? (t : Table κ β) (k : κ) : Option β :=
  (t.entries.find? fun e => decide (e.1 = k)).map Prod.snd

/-- Replaces the value of a key in a list of entries, or adds an entry at its end. -/
def putEntry (k : κ) (b : β) : List (κ × β) → List (κ × β)
  | [] => [(k, b)]
  | e :: rest => if e.1 = k then (k, b) :: rest else e :: putEntry k b rest

def put (t : Table κ β) (k : κ) (b : β) : Table κ β := ⟨putEntry k b t.entries⟩

def keys (t : Table κ β) : List κ := t.entries.map Prod.fst

def size (t : Table κ β) : Nat := t.entries.length

@[simp] theorem get?_empty (k : κ) : (empty : Table κ β).get? k = none := rfl

@[simp] theorem get?_put_self (t : Table κ β) (k : κ) (b : β) : (t.put k b).get? k = some b := by
  obtain ⟨es⟩ := t
  simp only [get?, put]
  induction es with
  | nil => simp [putEntry]
  | cons e rest ih =>
    by_cases h : e.1 = k
    · simp [putEntry, h]
    · simpa [putEntry, h] using ih

theorem get?_put_of_ne (t : Table κ β) {k l : κ} (b : β) (h : l ≠ k) :
    (t.put k b).get? l = t.get? l := by
  obtain ⟨es⟩ := t
  simp only [get?, put]
  induction es with
  | nil => simp [putEntry, Ne.symm h]
  | cons e rest ih =>
    by_cases hk : e.1 = k
    · subst hk
      simp [putEntry, Ne.symm h]
    · by_cases hl : e.1 = l
      · subst hl
        simp [putEntry, hk]
      · simpa [putEntry, hk, hl] using ih

theorem keys_put (t : Table κ β) (k : κ) (b : β) :
    (t.put k b).keys = if k ∈ t.keys then t.keys else t.keys ++ [k] := by
  obtain ⟨es⟩ := t
  simp only [keys, put]
  induction es with
  | nil => simp [putEntry]
  | cons e rest ih =>
    by_cases h : e.1 = k
    · simp [putEntry, h]
    · simp only [putEntry, h, if_false, List.map_cons, ih, List.mem_cons, Ne.symm h, false_or]
      split <;> simp_all

theorem size_put_le (t : Table κ β) (k : κ) (b : β) : (t.put k b).size ≤ t.size + 1 := by
  have hkeys := congrArg List.length (t.keys_put k b)
  rw [keys, List.length_map] at hkeys
  rw [size, hkeys]
  split
  · rw [keys, List.length_map]
    exact Nat.le_succ _
  · rw [List.length_append, keys, List.length_map]
    exact Nat.le_refl _

theorem mem_keys_iff (t : Table κ β) (k : κ) : k ∈ t.keys ↔ (t.get? k).isSome := by
  obtain ⟨es⟩ := t
  simp [keys, get?]

theorem nodup_keys_put {t : Table κ β} (h : t.keys.Nodup) (k : κ) (b : β) :
    (t.put k b).keys.Nodup := by
  rw [keys_put]
  split
  · exact h
  · next hk =>
    refine List.nodup_append.mpr ⟨h, by simp, ?_⟩
    intro x hx y hy hxy
    rw [List.mem_singleton] at hy
    exact hk (hy ▸ hxy ▸ hx)

theorem entries_put {t : Table κ β} {k : κ} (h : k ∉ t.keys) (b : β) :
    (t.put k b).entries = t.entries ++ [(k, b)] := by
  obtain ⟨es⟩ := t
  simp only [put, keys] at h ⊢
  induction es with
  | nil => rfl
  | cons e rest ih =>
    simp only [List.map_cons, List.mem_cons, not_or] at h
    rw [putEntry, if_neg (Ne.symm h.1), ih h.2, List.cons_append]

/-- Entries with distinct keys are all kept, in their order. -/
theorem entries_foldl_put {t : Table κ β} {es : List (κ × β)}
    (h : (t.keys ++ es.map Prod.fst).Nodup) :
    (es.foldl (fun t (k, b) => t.put k b) t).entries = t.entries ++ es := by
  induction es generalizing t with
  | nil => simp
  | cons e rest ih =>
    have hnew : e.1 ∉ t.keys := fun hmem =>
      (List.nodup_append.mp h).2.2 e.1 hmem e.1 (by simp) rfl
    have hkeys : (t.put e.1 e.2).keys = t.keys ++ [e.1] := by rw [keys_put, if_neg hnew]
    rw [List.foldl_cons, ih (by simpa [hkeys] using h), entries_put hnew, List.append_assoc]
    rfl

end Table
end PgMetrics
