import PgMetrics.Proofs.Scraper.Limited
import PgMetrics.Scrape
import Mathlib.Data.List.Infix
import Mathlib.Data.List.Nodup
import Mathlib.Data.List.Range

/-! # The connections of a scrape

A scrape asks for a connection to the configured database and, while it holds that one, for one
connection after another to each database that it walks.  `Contact` says how far it has come with
them, `Contact.Step` what may happen next, and `Contact.Hears` what scrapers may leave meanwhile.  A
log that follows these steps keeps its connections in order, wherever it ends.
-/
namespace PgMetrics

variable {σ κ α β : Type}

namespace Event

def opening? : Event → Option Nat
  | .opened number _ => some number
  | _ => none

def closing? : Event → Option Nat
  | .closed number => some number
  | _ => none

def dropping? : Event → Option Nat
  | .dropped number => some number
  | _ => none

def openings (events : List Event) : List Nat := events.filterMap opening?

def closings (events : List Event) : List Nat := events.filterMap closing?

def droppings (events : List Event) : List Nat := events.filterMap dropping?

@[simp] theorem openings_append (es fs : List Event) :
    openings (es ++ fs) = openings es ++ openings fs := List.filterMap_append

@[simp] theorem closings_append (es fs : List Event) :
    closings (es ++ fs) = closings es ++ closings fs := List.filterMap_append

@[simp] theorem droppings_append (es fs : List Event) :
    droppings (es ++ fs) = droppings es ++ droppings fs := List.filterMap_append

@[simp] theorem openings_dropped (ns : List Nat) : openings (ns.map dropped) = [] := by
  simp [openings, opening?, List.filterMap_map]

@[simp] theorem closings_dropped (ns : List Nat) : closings (ns.map dropped) = [] := by
  simp [closings, closing?, List.filterMap_map]

@[simp] theorem droppings_dropped (ns : List Nat) : droppings (ns.map dropped) = ns := by
  simp [droppings, List.filterMap_map, Function.comp_def, dropping?]

/-- The connections held after an event, with the databases they were opened for. -/
def connecting (held : List (Nat × String)) : Event → List (Nat × String)
  | .opened number database => held ++ [(number, database)]
  | .closed number => held.eraseP fun c => c.1 = number
  | .dropped number => held.eraseP fun c => c.1 = number
  | _ => held

def connections (events : List Event) : List (Nat × String) := events.foldl connecting []

theorem connections_append (es fs : List Event) :
    connections (es ++ fs) = fs.foldl connecting (connections es) := List.foldl_append

theorem holding_map_fst (held : List (Nat × String)) (e : Event) :
    holding (held.map Prod.fst) e = (connecting held e).map Prod.fst := by
  have herase : ∀ n, (held.map Prod.fst).erase n =
      (held.eraseP fun c => c.1 = n).map Prod.fst := by
    intro n
    induction held with
    | nil => rfl
    | cons c rest ih =>
      by_cases h : c.1 = n
      · simp [h]
      · simpa [List.erase_cons, h] using ih
  cases e with
  | opened n d => simp [holding, connecting]
  | closed n => exact herase n
  | dropped n => exact herase n
  | _ => rfl

theorem held_eq_connections (events : List Event) :
    held events = (connections events).map Prod.fst := by
  suffices h : ∀ held : List (Nat × String), events.foldl holding (held.map Prod.fst) =
      (events.foldl connecting held).map Prod.fst from h []
  induction events with
  | nil => exact fun _ => rfl
  | cons e rest ih =>
    intro held
    rw [List.foldl_cons, List.foldl_cons, holding_map_fst, ih]

theorem foldl_holding_dropped (ns rest : List Nat) :
    (ns.map dropped).foldl holding (ns ++ rest) = rest := by
  induction ns with
  | nil => rfl
  | cons n ns ih => simpa [holding] using ih

/-- What is held when a scrape ends is dropped with it. -/
@[simp] theorem held_append_dropped (log : List Event) :
    held (log ++ (held log).map dropped) = [] := by
  have h := foldl_holding_dropped (held log) []
  rw [List.append_nil] at h
  rw [held, List.foldl_append]
  exact h

end Event

namespace Scrape

open Event (connecting openings closings droppings held)

/-- How far a scrape has come with its connections. -/
inductive Contact where
  | idle
  | dialling
  | refused
  /-- The first connection is open, and nothing has been said of it. -/
  | joined
  /-- It has been said that the server is up. -/
  | greeted
  /-- It has walked that many databases and has perhaps asked for the next one. -/
  | home (walked : Nat) (asked : Option String)
  | away (walked : Nat) (database : String)
  | gone (walked : Nat)

namespace Contact

def opened : Contact → Nat
  | .idle | .dialling | .refused => 0
  | .joined | .greeted => 1
  | .home k _ => k + 1
  | .away k _ => k + 2
  | .gone k => k + 1

def closed : Contact → List Nat
  | .idle | .dialling | .refused | .joined | .greeted => []
  | .home k _ => List.range' 1 k
  | .away k _ => List.range' 1 k
  | .gone k => List.range' 1 k ++ [0]

section
variable (target : String)

def connections : Contact → List (Nat × String)
  | .joined | .greeted | .home _ _ => [(0, target)]
  | .away k d => [(0, target), (k + 1, d)]
  | _ => []

def database? : Contact → Option String
  | .home _ none => some target
  | .away _ d => some d
  | _ => none

/-- The last event, if there is only one that leads here. -/
def mark? : Contact → Option Event
  | .dialling => some (.requested target)
  | .refused => some (.observed (up 0))
  | .home _ (some d) => some (.requested d)
  | .gone _ => some (.closed 0)
  | _ => none

def said? : Contact → Option (List Observation)
  | .idle | .dialling | .joined => some []
  | .greeted => some [up 1]
  | _ => none

inductive Step : Contact → Event → Contact → Prop where
  | asks : Step .idle (.requested target) .dialling
  | refused : Step .dialling (.observed (up 0)) .refused
  | opens : Step .dialling (.opened 0 target) .joined
  | greets : Step .joined (.observed (up 1)) .greeted
  | informs (v : Version) : Step .greeted (.observed (info v)) (.home 0 none)
  | asksNext (k : Nat) (d : String) : Step (.home k none) (.requested d) (.home k (some d))
  | opensNext (k : Nat) (d : String) :
      Step (.home k (some d)) (.opened (k + 1) d) (.away k d)
  | closes (k : Nat) (d : String) : Step (.away k d) (.closed (k + 1)) (.home (k + 1) none)
  | leaves (k : Nat) (asked : Option String) : Step (.home k asked) (.closed 0) (.gone k)
  | turnsBack : Step .greeted (.closed 0) (.gone 0)

/-- What scrapers leave that run on the connection opened last. -/
def Hears (c : Contact) (e : Event) : Prop :=
  ∃ d, c.database? target = some d ∧ (e.ofRun ∨ ∃ source time, e = .started source d time)

inductive Steps : List Event → Contact → Prop where
  | nil : Steps [] .idle
  | snoc {log : List Event} {c c' : Contact} {e : Event} :
      Steps log c → Step target c e c' → Steps (log ++ [e]) c'
  | heard {log : List Event} {c : Contact} {e : Event} :
      Steps log c → c.Hears target e → Steps (log ++ [e]) c

end

variable {target : String}

theorem Steps.hears {c : Contact} {log es : List Event} (h : Steps target log c)
    (hes : ∀ e ∈ es, c.Hears target e) : Steps target (log ++ es) c := by
  induction es generalizing log with
  | nil => rwa [List.append_nil]
  | cons e rest ih =>
    rw [List.forall_mem_cons] at hes
    rw [List.append_cons]
    exact ih (h.heard hes.1) hes.2

theorem Steps.of_isPrefix {c : Contact} {log before : List Event} (h : Steps target log c)
    (hbefore : before <+: log) : ∃ c', Steps target before c' := by
  induction h with
  | nil => exact ⟨.idle, by rw [List.prefix_nil.mp hbefore]; exact .nil⟩
  | snoc h hstep ih =>
    rcases List.prefix_concat_iff.mp hbefore with rfl | hbefore
    · exact ⟨_, h.snoc hstep⟩
    · exact ih hbefore
  | heard h hheard ih =>
    rcases List.prefix_concat_iff.mp hbefore with rfl | hbefore
    · exact ⟨_, h.heard hheard⟩
    · exact ih hbefore

/-- The last event of a log is a step of the scrape or left by a scraper. -/
theorem Steps.of_concat {c : Contact} {log : List Event} {e : Event}
    (h : Steps target (log ++ [e]) c) :
    ∃ c', Steps target log c' ∧ (Step target c' e c ∨ c' = c ∧ c.Hears target e) := by
  generalize hall : log ++ [e] = all at h
  cases h with
  | nil => exact absurd hall (by simp)
  | snoc h hstep =>
    obtain ⟨rfl, he⟩ := List.append_inj' hall rfl
    cases he
    exact ⟨_, h, Or.inl hstep⟩
  | heard h hheard =>
    obtain ⟨rfl, he⟩ := List.append_inj' hall rfl
    cases he
    exact ⟨_, h, Or.inr ⟨rfl, hheard⟩⟩

structure Fits (target : String) (log : List Event) (c : Contact) : Prop where
  connections : Event.connections log = c.connections target
  opened : openings log = List.range c.opened
  closed : closings log = c.closed
  kept : droppings log = []
  mark : ∀ e, c.mark? target = some e → log.getLast? = some e
  said : ∀ os, c.said? = some os → Event.results log = os
  idle : c = .idle → log = []
  first : c ≠ .idle → log.head? = some (.requested target)

theorem fits_nil : Fits target [] .idle where
  connections := rfl
  opened := rfl
  closed := rfl
  kept := rfl
  mark _ h := by cases h
  said _ h := Option.some.inj h
  idle _ := rfl
  first h := absurd rfl h

theorem Fits.first_append {log : List Event} {c : Contact} (h : Fits target log c)
    (hidle : c ≠ .idle) (e : Event) : (log ++ [e]).head? = some (.requested target) := by
  rw [List.head?_append, h.first hidle]
  rfl

theorem Fits.step {log : List Event} {c c' : Contact} {e : Event} (h : Fits target log c)
    (hstep : Step target c e c') : Fits target (log ++ [e]) c' := by
  have hconnections := Event.connections_append log [e]
  rw [h.connections] at hconnections
  have hopened : openings (log ++ [e]) = _ := (Event.openings_append log [e]).trans
    (congrArg (· ++ openings [e]) h.opened)
  have hclosed : closings (log ++ [e]) = _ := (Event.closings_append log [e]).trans
    (congrArg (· ++ closings [e]) h.closed)
  have hkept : droppings (log ++ [e]) = _ := (Event.droppings_append log [e]).trans
    (congrArg (· ++ droppings [e]) h.kept)
  have hlast : (log ++ [e]).getLast? = some e := List.getLast?_concat
  have hsaid : ∀ os, c.said? = some os →
      Event.results (log ++ [e]) = os ++ Event.results [e] := fun os hos => by
    rw [Event.results_append, h.said os hos]
  cases hstep with
  | asks =>
    refine ⟨hconnections, hopened, hclosed, hkept, by simp [mark?], ?_, by simp, fun _ => ?_⟩
    · exact fun os hos => (hsaid [] rfl).trans (Option.some.inj hos)
    · rw [h.idle rfl]
      rfl
  | opens | greets =>
    exact ⟨hconnections, hopened, hclosed, hkept, by simp [mark?],
      fun os hos => (hsaid [] rfl).trans (Option.some.inj hos), by simp,
      fun _ => h.first_append (by simp) _⟩
  | refused | informs =>
    exact ⟨hconnections, hopened, hclosed, hkept, by simp [mark?], by simp [said?], by simp,
      fun _ => h.first_append (by simp) _⟩
  | asksNext k d =>
    exact ⟨hconnections, hopened.trans (List.append_nil _), hclosed.trans (List.append_nil _), hkept,
      by simp [mark?], by simp [said?], by simp, fun _ => h.first_append (by simp) _⟩
  | opensNext k d =>
    refine ⟨hconnections, ?_, hclosed.trans (List.append_nil _), hkept, by simp [mark?],
      by simp [said?], by simp, fun _ => h.first_append (by simp) _⟩
    rw [hopened]
    exact List.range_succ.symm
  | closes k d =>
    refine ⟨?_, hopened.trans (List.append_nil _), ?_, hkept, by simp [mark?], by simp [said?],
      by simp, fun _ => h.first_append (by simp) _⟩
    · rw [hconnections]
      simp [connecting, Contact.connections]
    · rw [hclosed]
      simp [closings, Event.closing?, Contact.closed, List.range'_1_concat, Nat.add_comm]
  | leaves | turnsBack =>
    refine ⟨?_, hopened.trans (List.append_nil _), hclosed, hkept, by simp [mark?], by simp [said?],
      by simp, fun _ => h.first_append (by simp) _⟩
    rw [hconnections]
    simp [connecting, Contact.connections]

theorem Fits.heard {log : List Event} {c : Contact} {e : Event} (h : Fits target log c)
    (hheard : c.Hears target e) : Fits target (log ++ [e]) c := by
  obtain ⟨d, hd, he⟩ := hheard
  have hsilent : (∀ held, connecting held e = held) ∧ Event.opening? e = none ∧
      Event.closing? e = none ∧ Event.dropping? e = none := by
    rcases he with hrun | ⟨source, time, rfl⟩
    · cases e <;> first | exact ⟨fun _ => rfl, rfl, rfl, rfl⟩ | cases hrun
    · exact ⟨fun _ => rfl, rfl, rfl, rfl⟩
  obtain ⟨hconnecting, hopening, hclosing, hdropping⟩ := hsilent
  have hidle : c ≠ .idle := by
    rintro rfl
    cases hd
  refine ⟨?_, ?_, ?_, ?_, ?_, ?_, fun hc => absurd hc hidle, fun _ => h.first_append hidle e⟩
  · rw [Event.connections_append, List.foldl_cons, List.foldl_nil, hconnecting]
    exact h.connections
  · simpa [openings, hopening] using h.opened
  · simpa [closings, hclosing] using h.closed
  · simpa [droppings, hdropping] using h.kept
  · intro e' he'
    cases c with
    | home k asked => cases asked <;> simp_all [mark?, database?]
    | _ => simp_all [mark?, database?]
  · intro os hos
    cases c with
    | idle | dialling | joined | greeted => cases hd
    | _ => cases hos

theorem Steps.fits {log : List Event} {c : Contact} (h : Steps target log c) :
    Fits target log c := by
  induction h with
  | nil => exact fits_nil
  | snoc _ hstep ih => exact ih.step hstep
  | heard _ hheard ih => exact ih.heard hheard

theorem range_succ_perm (k : Nat) : (List.range (k + 1)).Perm (List.range' 1 k ++ [0]) := by
  rw [List.range_eq_range', List.range'_succ]
  exact (List.perm_append_singleton 0 _).symm

/-- What has been opened is closed or held. -/
theorem range_opened_perm (c : Contact) :
    (List.range c.opened).Perm (c.closed ++ (c.connections target).map Prod.fst) := by
  cases c with
  | idle | dialling | refused | joined | greeted => exact .refl _
  | home k asked => exact range_succ_perm k
  | away k d =>
    have h := (range_succ_perm k).append_right [k + 1]
    rw [← List.range_succ, List.append_assoc] at h
    exact h
  | gone k =>
    rw [Contact.connections.eq_def, List.map_nil, List.append_nil]
    exact range_succ_perm k

end Contact

/-- How a scrape treats its connections: the first one is requested for the configured database, and
each is opened right after it has been requested; one is held besides the first one at most, and
given back before the next is requested; none is lost or given back twice. -/
structure Disciplined (target : String) (log : List Event) : Prop where
  first : ∀ e rest, log = e :: rest → e = .requested target
  asked : ∀ before n d, before ++ [.opened n d] <+: log → before.getLast? = some (.requested d)
  few : ∀ before, before <+: log → ∃ k, (held before).Sublist [0, k + 1]
  alone : ∀ before d, before ++ [.requested d] <+: log → before = [] ∨ held before = [0]
  once : (openings log).Nodup
  balance : (openings log).Perm (closings log ++ droppings log ++ held log)

/-- Every connection has been closed, the first one last of all. -/
def Cleared (log : List Event) : Prop :=
  (openings log).Perm (closings log) ∧ (openings log = [] ∨ log.getLast? = some (.closed 0))

namespace Contact

variable {target : String} {log : List Event} {c : Contact}

theorem Fits.held_eq (h : Fits target log c) :
    held log = (c.connections target).map Prod.fst := by
  rw [Event.held_eq_connections, h.connections]

theorem Fits.held_sublist (h : Fits target log c) : ∃ k, (held log).Sublist [0, k + 1] := by
  rw [h.held_eq]
  cases c with
  | idle | dialling | refused | gone => exact ⟨0, List.nil_sublist _⟩
  | joined | greeted | home => exact ⟨0, by simp [Contact.connections]⟩
  | away k d => exact ⟨k, List.Sublist.refl _⟩

/-- What has happened just before an event of a log. -/
theorem Steps.before {before : List Event} {e : Event} (h : Steps target log c)
    (hbegins : before ++ [e] <+: log) : ∃ c₁ c₂, Fits target before c₁ ∧
      (Step target c₁ e c₂ ∨ c₁.Hears target e) := by
  obtain ⟨c₂, hsteps⟩ := h.of_isPrefix hbegins
  obtain ⟨c₁, hsteps, hlast⟩ := hsteps.of_concat
  refine ⟨c₁, c₂, hsteps.fits, hlast.imp_right ?_⟩
  rintro ⟨rfl, hheard⟩
  exact hheard

theorem Steps.disciplined (h : Steps target log c) : Disciplined target log where
  first e rest hlog := by
    by_cases hc : c = .idle
    · rw [h.fits.idle hc] at hlog
      cases hlog
    · have hfirst := h.fits.first hc
      rw [hlog] at hfirst
      exact Option.some.inj hfirst
  asked before n d hbegins := by
    obtain ⟨c₁, c₂, hfits, hstep | ⟨_, _, hrun | ⟨_, _, he⟩⟩⟩ := h.before hbegins
    · cases hstep <;> exact hfits.mark _ rfl
    · cases hrun
    · cases he
  few before hbegins := by
    obtain ⟨c₁, hsteps⟩ := h.of_isPrefix hbegins
    exact hsteps.fits.held_sublist
  alone before d hbegins := by
    obtain ⟨c₁, c₂, hfits, hstep | ⟨_, _, hrun | ⟨_, _, he⟩⟩⟩ := h.before hbegins
    · cases hstep with
      | asks => exact Or.inl (hfits.idle rfl)
      | asksNext => exact Or.inr hfits.held_eq
    · cases hrun
    · cases he
  once := by
    rw [h.fits.opened]
    exact List.nodup_range
  balance := by
    rw [h.fits.opened, h.fits.closed, h.fits.kept, List.append_nil, h.fits.held_eq]
    exact c.range_opened_perm

end Contact

section Dropped
variable {target : String} {log : List Event}

theorem held_append_dropped_of_isPrefix {ns : List Nat} (h : ns <+: held log) :
    (held (log ++ ns.map .dropped)).Sublist (held log) := by
  obtain ⟨rest, hrest⟩ := h
  have hheld : held (log ++ ns.map .dropped) = rest := by
    rw [held, List.foldl_append]
    change (ns.map Event.dropped).foldl Event.holding (held log) = rest
    rw [← hrest]
    exact Event.foldl_holding_dropped ns rest
  rw [hheld, ← hrest]
  exact List.sublist_append_right ns rest

theorem prefix_append_cases {before es : List Event} (h : before <+: log ++ es) :
    before <+: log ∨ ∃ rest, before = log ++ rest ∧ rest <+: es := by
  rcases List.prefix_or_prefix_of_prefix h (List.prefix_append log es) with h' | ⟨rest, rfl⟩
  · exact Or.inl h'
  · exact Or.inr ⟨rest, rfl, (List.prefix_append_right_inj log).mp h⟩

/-- What is not among later events has happened before them. -/
theorem prefix_of_not_mem {before es : List Event} {e : Event}
    (h : before ++ [e] <+: log ++ es) (he : e ∉ es) : before ++ [e] <+: log := by
  rcases prefix_append_cases h with h' | ⟨rest, hrest, hbegins⟩
  · exact h'
  · cases rest using List.reverseRecOn with
    | nil => rw [hrest, List.append_nil]
    | append_singleton rest e' =>
      rw [← List.append_assoc] at hrest
      have he' := (List.append_inj' hrest rfl).2
      rw [List.cons.injEq] at he'
      exact absurd (hbegins.mem (by simp [he'.1])) he

/-- The connections that a dropped scrape still held go with it, and none is lost. -/
theorem Disciplined.dropped (h : Disciplined target log) :
    Disciplined target (log ++ (held log).map .dropped) where
  first e rest hlog := by
    cases log with
    | nil => cases hlog
    | cons e' rest' =>
      rw [List.cons_append, List.cons.injEq] at hlog
      exact hlog.1 ▸ h.first e' rest' rfl
  asked before n d hbegins := h.asked before n d (prefix_of_not_mem hbegins (by simp))
  few before hbegins := by
    rcases prefix_append_cases hbegins with hbegins | ⟨rest, rfl, hrest⟩
    · exact h.few before hbegins
    · obtain ⟨ns, hns, rfl⟩ := List.prefix_map_iff.mp hrest
      obtain ⟨k, hk⟩ := h.few log (List.prefix_refl log)
      exact ⟨k, (held_append_dropped_of_isPrefix hns).trans hk⟩
  alone before d hbegins := h.alone before d (prefix_of_not_mem hbegins (by simp))
  once := by simpa using h.once
  balance := by
    rw [Event.held_append_dropped, List.append_nil, Event.closings_append, Event.droppings_append,
      Event.openings_append, Event.openings_dropped, Event.closings_dropped,
      Event.droppings_dropped, List.append_nil, List.append_nil, ← List.append_assoc]
    exact h.balance

end Dropped
end Scrape
end PgMetrics
