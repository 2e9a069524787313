import PgMetrics.Proofs.Exposition.Grouping

/-! # Grouping is a stable partition

The families of a list of observations are one for each name, in the order in which the names first
occur, and each holds the observations of its name in their order.  No other list of families does
so.  Every observation is in exactly one of them: placing one more observation adds just that one.
-/
namespace PgMetrics.Exposition

/-- Whether families sort observations by name and keep the order everywhere. -/
structure StablePartition (os : List Observation) (fs : List Family) : Prop where
  names : FirstSeen (os.map Observation.name) (fs.map Family.name)
  members : ∀ f ∈ fs, f.members = os.filter fun o => o.name = f.name

theorem Family.members_injective : Function.Injective Family.members := by
  rintro ⟨first, rest⟩ ⟨first', rest'⟩ h
  obtain ⟨rfl, rfl⟩ := List.cons.inj h
  rfl

/-- The members of all families after one more observation. -/
theorem members_place_perm (o : Observation) (fs : List Family) :
    ((place o fs).flatMap Family.members).Perm (fs.flatMap Family.members ++ [o]) := by
  induction fs with
  | nil => exact List.Perm.refl _
  | cons f rest ih =>
    unfold place
    split
    · rw [List.flatMap_cons, List.flatMap_cons, Family.members_add, List.append_assoc,
        List.append_assoc]
      exact List.perm_append_comm.append_left _
    · rw [List.flatMap_cons, List.flatMap_cons, List.append_assoc]
      exact ih.append_left _

theorem members_group_perm (os : List Observation) :
    ((group os).flatMap Family.members).Perm os := by
  induction os using List.reverseRecOn with
  | nil => exact List.Perm.refl _
  | append_singleton rest o ih =>
    rw [group_concat]
    exact (members_place_perm o (group rest)).trans (ih.append_right [o])

theorem stablePartition_group (os : List Observation) : StablePartition os (group os) :=
  ⟨firstSeen_names_group os, fun _ => members_of_mem_group⟩

/-- The members of the families, read off the names. -/
theorem StablePartition.map_members {os : List Observation} {fs : List Family}
    (h : StablePartition os fs) :
    fs.map Family.members =
      (fs.map Family.name).map fun n => os.filter fun o => o.name = n := by
  rw [List.map_map]
  exact List.map_congr_left h.members

theorem StablePartition.unique {os : List Observation} {fs gs : List Family}
    (hfs : StablePartition os fs) (hgs : StablePartition os gs) : fs = gs := by
  apply List.map_injective_iff.mpr Family.members_injective
  rw [hfs.map_members, hgs.map_members, hfs.names.unique hgs.names]

/-- Grouping is the one stable partition by name: the families have distinct names in first-seen
order, none is empty, each has exactly the observations of its name in their order, and all of them
together are the observations, none lost and none twice. -/
theorem group_eq_iff_stablePartition (os : List Observation) :
    (∀ fs, group os = fs ↔ StablePartition os fs) ∧
      ((group os).map Family.name).Nodup ∧
      (∀ f ∈ group os, f.members ≠ [] ∧ f.members = os.filter fun o => o.name = f.name) ∧
      ((group os).flatMap Family.members).Perm os := by
  have hgroup := stablePartition_group os
  refine ⟨fun fs => ⟨?_, fun h => hgroup.unique h⟩, hgroup.names.nodup, ?_, members_group_perm os⟩
  · rintro rfl
    exact hgroup
  · intro f hf
    exact ⟨List.cons_ne_nil _ _, hgroup.members f hf⟩

end PgMetrics.Exposition
