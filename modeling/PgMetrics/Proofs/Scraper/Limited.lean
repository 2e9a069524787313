import PgMetrics.Proofs.Scraper.Run
import Mathlib.Data.List.Nodup
import Mathlib.Data.List.Pairwise

/-! # Runs of scrapers under a limit

A run under a limit starts its source at most once, first of all, and then only makes observations
and hands them on.  It writes no cache but those of its own scraper.
-/
namespace PgMetrics

variable {σ κ : Type}

def Event.ofRun : Event → Bool
  | .made _ | .observed _ => true
  | _ => false

namespace Scraper

theorem ofRun_observed (os : List Observation) :
    ∀ e ∈ os.map Event.observed, Event.ofRun e := by
  intro e he
  obtain ⟨o, _, rfl⟩ := List.mem_map.mp he
  rfl

/-- The start of a run is handed on by every cache. -/
theorem aside_begun {source database : String} {time : Nat} {begun : List Event}
    (h : begun = [] ∨ begun = [.started source database time]) : Event.aside begun = begun := by
  rcases h with rfl | rfl <;> rfl

theorem events_run_limit (s : Scraper σ κ) (session : Session κ) (version : Version) (span : Nat)
    (m : Moment σ) :
    ∃ begun rest, (((s.run session version).limit span).run m.time m.world).events = begun ++ rest ∧
      (begun = [] ∨ begun = [.started s.baseName session.database m.time]) ∧
      ∀ e ∈ rest, Event.ofRun e := by
  induction s with
  | direct source =>
    rw [run_limit_direct]
    refine ⟨[_], _, rfl, Or.inr rfl, ?_⟩
    intro e he
    obtain ⟨o, _, ho⟩ := List.mem_flatMap.mp he
    rcases List.mem_cons.mp ho with rfl | ho
    · rfl
    · rw [List.mem_singleton.mp ho]
      rfl
  | cached slot ttl inner ih =>
    obtain ⟨begun, rest, hevents, hbegun, hrest⟩ := ih
    have haside : ∀ e ∈ Event.aside rest, Event.ofRun e := fun e he =>
      hrest e (List.mem_of_mem_filter he)
    rcases run_limit_cached_cases slot ttl inner session version span m with
      ⟨os, _, ho⟩ | ho | ⟨verdict, ho⟩
    · rw [ho]
      exact ⟨[], _, rfl, Or.inl rfl, ofRun_observed os⟩
    · rw [ho]
      simp only [hevents, Event.aside_append, aside_begun hbegun]
      exact ⟨begun, _, rfl, hbegun, haside⟩
    · rw [ho]
      simp only [hevents, Event.aside_append, aside_begun hbegun, List.append_assoc]
      exact ⟨begun, _, rfl, hbegun, List.forall_mem_append.mpr ⟨haside, ofRun_observed _⟩⟩

theorem cache_run_limit {slot : Nat} (s : Scraper σ κ) (hs : slot ∉ s.slots) (session : Session κ)
    (version : Version) (span : Nat) (m : Moment σ) :
    (((s.run session version).limit span).run m.time m.world).state.caches.cache slot =
      m.world.caches.cache slot := by
  induction s with
  | direct source => rw [run_limit_direct]
  | cached k ttl inner ih =>
    rw [slots, List.mem_cons, not_or] at hs
    rcases run_limit_cached_cases k ttl inner session version span m with
      ⟨os, _, ho⟩ | ho | ⟨verdict, ho⟩
    · rw [ho]
    · rw [ho]
      exact ih hs.2
    · rw [ho]
      exact (Caches.cache_store_of_ne _ _ _ hs.1).trans (ih hs.2)

/-- If every cache belongs to one scraper, scrapers with a cache in common are the same. -/
theorem eq_of_mem_slots {scrapers : List (Scraper σ κ)}
    (hslots : (scrapers.flatMap slots).Nodup) {r r' : Scraper σ κ} (hr : r ∈ scrapers)
    (hr' : r' ∈ scrapers) {k : Nat} (hk : k ∈ r.slots) (hk' : k ∈ r'.slots) : r = r' := by
  have hsymm : Std.Symm (Function.onFun List.Disjoint (@slots σ κ)) :=
    ⟨fun _ _ hdisjoint _ ha hb => hdisjoint hb ha⟩
  by_contra hne
  exact (List.nodup_flatMap.mp hslots).2.forall hr hr' hne hk hk'

end Scraper
end PgMetrics
