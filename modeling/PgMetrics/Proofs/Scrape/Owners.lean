import PgMetrics.Proofs.Activity.Run
import PgMetrics.Scrape

/-! # Whose events they are

An event of a scrape happens in the run of a scraper or in none.  The ascribed scrape does what the
scrape does, and each of its events comes with the name of the source to whose run it belongs.

Two ascribed scrapes take the same way through a server if they get the same answers.  So a relation
between activities that is handed on from one activity to the next relates them as soon as it relates
what they ask and the segments of their scrapers.
-/
namespace PgMetrics

variable {σ κ μ α β : Type}

def Session.look (face : κ → μ) (session : Session κ) : String × μ :=
  (session.database, face session.handle)

namespace Scrape

abbrev Ascribed := Option String × Event

def ascribe (owner : Option String) (a : Activity (World σ) Event α) :
    Activity (World σ) Ascribed α := a.mapEvents (Prod.mk owner)

def ascribedSegments (session : Session κ) (version : Version) :
    List (Scraper σ κ) → Activity (World σ) Ascribed Unit
  | [] => return ()
  | s :: rest => do
    ascribe (some s.baseName) (segment s session version)
    ascribedSegments session version rest

def ascribedWalk (g : Gateway σ κ) (target : Target) (version : Version)
    (scrapers : List (Scraper σ κ)) (number : Nat) :
    List String → Activity (World σ) Ascribed Unit
  | [] => return ()
  | database :: rest => do
    match ← ascribe none (connect g number (target.withDatabase database)) with
    | .error _ => return ()
    | .ok session =>
      ascribedSegments session version scrapers
      ascribe none (close g number session)
      ascribedWalk g target version scrapers (number + 1) rest

def ascribedOnServer (g : Gateway σ κ) (target : Target) (set : ScraperSet σ κ)
    (excluded only : List String) (session : Session κ) : Activity (World σ) Ascribed Unit := do
  match ← ascribe none (Scraper.asking (g.announcement session.handle)) with
  | .error _ => return ()
  | .ok raw =>
    let version := Version.ofAnnouncement raw
    ascribe none (.emit (.observed (info version)))
    match ← ascribe none (Scraper.asking (g.databases session.handle excluded)) with
    | .error _ => return ()
    | .ok databases =>
      ascribedSegments session version (set.global.filter (selected only))
      ascribedWalk g target version (set.perDatabase.filter (selected only)) 1 databases

def ascribedCollect (g : Gateway σ κ) (target : Target) (set : ScraperSet σ κ)
    (excluded only : List String) : Activity (World σ) Ascribed Unit := do
  match ← ascribe none (connect g 0 target) with
  | .error _ => ascribe none (.emit (.observed (up 0)))
  | .ok session =>
    ascribe none (.emit (.observed (up 1)))
    ascribedOnServer g target set excluded only session
    ascribe none (close g 0 session)

@[simp] theorem mapEvents_ascribe {ω : Type} (f : Ascribed → ω) (owner : Option String)
    (a : Activity (World σ) Event α) :
    (ascribe owner a).mapEvents f = a.mapEvents fun e => f (owner, e) :=
  Activity.mapEvents_mapEvents f _ a

theorem forget_ascribe (owner : Option String) (a : Activity (World σ) Event α) :
    (ascribe owner a).mapEvents Prod.snd = a :=
  (mapEvents_ascribe _ owner a).trans a.mapEvents_id

theorem forget_ascribedSegments (session : Session κ) (version : Version)
    (scrapers : List (Scraper σ κ)) :
    (ascribedSegments session version scrapers).mapEvents Prod.snd =
      segments session version scrapers := by
  induction scrapers with
  | nil => rfl
  | cons s rest ih =>
    rw [ascribedSegments, segments, Activity.mapEvents_bind, forget_ascribe, ih]

section Collect
variable (g : Gateway σ κ) (target : Target)

theorem forget_ascribedWalk (version : Version) (scrapers : List (Scraper σ κ)) (number : Nat)
    (databases : List String) :
    (ascribedWalk g target version scrapers number databases).mapEvents Prod.snd =
      walk g target version scrapers number databases := by
  induction databases generalizing number with
  | nil => rfl
  | cons database rest ih =>
    rw [ascribedWalk, walk, Activity.mapEvents_bind, forget_ascribe]
    refine congrArg (_ >>= ·) (funext fun answer => ?_)
    cases answer with
    | error failure => rfl
    | ok session =>
      simp only [Activity.mapEvents_bind, forget_ascribe, forget_ascribedSegments, ih]

variable (set : ScraperSet σ κ) (excluded only : List String)

theorem forget_ascribedOnServer (session : Session κ) :
    (ascribedOnServer g target set excluded only session).mapEvents Prod.snd =
      onServer g target set excluded only session := by
  rw [ascribedOnServer, onServer, Activity.mapEvents_bind, forget_ascribe]
  refine congrArg (_ >>= ·) (funext fun announced => ?_)
  cases announced with
  | error failure => rfl
  | ok raw =>
    simp only [Activity.mapEvents_bind, forget_ascribe]
    refine congrArg (_ >>= ·) (funext fun _ => congrArg (_ >>= ·) (funext fun listed => ?_))
    cases listed with
    | error failure => rfl
    | ok databases =>
      simp only [Activity.mapEvents_bind, forget_ascribedSegments, forget_ascribedWalk]

theorem forget_ascribedCollect :
    (ascribedCollect g target set excluded only).mapEvents Prod.snd =
      collect g target set excluded only := by
  rw [ascribedCollect, collect, Activity.mapEvents_bind, forget_ascribe]
  refine congrArg (_ >>= ·) (funext fun answer => ?_)
  cases answer with
  | error failure => rfl
  | ok session =>
    simp only [Activity.mapEvents_bind, forget_ascribe, forget_ascribedOnServer]

end Collect

def SameAnswer (face : κ → μ) (x y : Except Failure (Session κ)) : Prop :=
  x.map (Session.look face) = y.map (Session.look face)

theorem SameAnswer.cases {face : κ → μ} {x y : Except Failure (Session κ)}
    (h : SameAnswer face x y) :
    (∃ failure, x = .error failure ∧ y = .error failure) ∨
      ∃ c c', x = .ok c ∧ y = .ok c' ∧ c.look face = c'.look face := by
  cases x <;> cases y <;> simp_all [SameAnswer, Except.map]

/-- A relation between activities, given one between their values, that is handed on from one activity
to the next and relates what two scrapes ask and run. -/
structure Parallel (face : κ → μ)
    (R : {α : Type} → (α → α → Prop) → Activity (World σ) Ascribed α →
      Activity (World σ) Ascribed α → Prop)
    (g g' : Gateway σ κ) (excluded : List String) (set set' : ScraperSet σ κ)
    (only only' : List String) : Prop where
  pure : ∀ {α : Type} {r : α → α → Prop} {x y : α}, r x y → R r (pure x) (pure y)
  bind : ∀ {α β : Type} {r : α → α → Prop} {r' : β → β → Prop}
    {a b : Activity (World σ) Ascribed α} {next next' : α → Activity (World σ) Ascribed β},
    R r a b → (∀ x y, r x y → R r' (next x) (next' y)) → R r' (a >>= next) (b >>= next')
  observed : ∀ o, R Eq (ascribe none (.emit (.observed o))) (ascribe none (.emit (.observed o)))
  connect : ∀ number target, R (SameAnswer face) (ascribe none (connect g number target))
    (ascribe none (connect g' number target))
  announcement : ∀ c c' : Session κ, c.look face = c'.look face →
    R Eq (ascribe none (Scraper.asking (g.announcement c.handle)))
      (ascribe none (Scraper.asking (g'.announcement c'.handle)))
  databases : ∀ c c' : Session κ, c.look face = c'.look face →
    R Eq (ascribe none (Scraper.asking (g.databases c.handle excluded)))
      (ascribe none (Scraper.asking (g'.databases c'.handle excluded)))
  close : ∀ number, ∀ c c' : Session κ, c.look face = c'.look face →
    R Eq (ascribe none (close g number c)) (ascribe none (close g' number c'))
  global : ∀ c c' : Session κ, c.look face = c'.look face → ∀ version,
    R Eq (ascribedSegments c version (set.global.filter (selected only)))
      (ascribedSegments c' version (set'.global.filter (selected only')))
  perDatabase : ∀ c c' : Session κ, c.look face = c'.look face → ∀ version,
    R Eq (ascribedSegments c version (set.perDatabase.filter (selected only)))
      (ascribedSegments c' version (set'.perDatabase.filter (selected only')))

namespace Parallel

variable {face : κ → μ}
  {R : {α : Type} → (α → α → Prop) → Activity (World σ) Ascribed α →
    Activity (World σ) Ascribed α → Prop}
  {g g' : Gateway σ κ} {excluded : List String} {set set' : ScraperSet σ κ}
  {only only' : List String} (h : Parallel face R g g' excluded set set' only only')

include h

theorem bind_eq {r : β → β → Prop} {a b : Activity (World σ) Ascribed α}
    {next next' : α → Activity (World σ) Ascribed β} (hab : R Eq a b)
    (hnext : ∀ x, R r (next x) (next' x)) : R r (a >>= next) (b >>= next') := by
  refine h.bind hab fun x y hxy => ?_
  rw [hxy]
  exact hnext y

theorem walk (target : Target) (version : Version) (number : Nat) (databases : List String) :
    R Eq (ascribedWalk g target version (set.perDatabase.filter (selected only)) number databases)
      (ascribedWalk g' target version (set'.perDatabase.filter (selected only')) number
        databases) := by
  induction databases generalizing number with
  | nil => exact h.pure rfl
  | cons database rest ih =>
    refine h.bind (h.connect number _) fun x y hxy => ?_
    rcases hxy.cases with ⟨failure, rfl, rfl⟩ | ⟨c, c', rfl, rfl, hlook⟩
    · exact h.pure rfl
    · exact h.bind_eq (h.perDatabase c c' hlook version) fun _ =>
        h.bind_eq (h.close number c c' hlook) fun _ => ih (number + 1)

theorem onServer (target : Target) {c c' : Session κ} (hlook : c.look face = c'.look face) :
    R Eq (ascribedOnServer g target set excluded only c)
      (ascribedOnServer g' target set' excluded only' c') := by
  refine h.bind_eq (h.announcement c c' hlook) fun announced => ?_
  cases announced with
  | error failure => exact h.pure rfl
  | ok raw =>
    refine h.bind_eq (h.observed _) fun _ => h.bind_eq (h.databases c c' hlook) fun listed => ?_
    cases listed with
    | error failure => exact h.pure rfl
    | ok databases =>
      exact h.bind_eq (h.global c c' hlook _) fun _ => h.walk target _ 1 databases

/-- What relates the parts of two scrapes relates the scrapes. -/
theorem collect (target : Target) :
    R Eq (ascribedCollect g target set excluded only)
      (ascribedCollect g' target set' excluded only') := by
  refine h.bind (h.connect 0 target) fun x y hxy => ?_
  rcases hxy.cases with ⟨failure, rfl, rfl⟩ | ⟨c, c', rfl, rfl, hlook⟩
  · exact h.observed _
  · exact h.bind_eq (h.observed _) fun _ => h.bind_eq (h.onServer target hlook) fun _ =>
      h.close 0 c c' hlook

end Parallel
end Scrape
end PgMetrics
