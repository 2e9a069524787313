import PgMetrics.Proofs.Activity.Alike
import PgMetrics.Proofs.Scrape.Owners
import PgMetrics.Proofs.Scraper.Run
import PgMetrics.Service.Basic
import Mathlib.Data.List.Forall2

/-! # Scrapes that resemble each other

Two services resemble each other if, as far as a `view` of the server and the `face` of a connection
show, they get the same answers, and their scrapers are behind the same caches and run alike up to a
relation between verdicts.  Then their scrapes leave the same events behind at the same times, up to
what the verdicts make of them, and the same caches.

Which connection a scrape gets depends on who else has connected.  A server and sources are impartial
if all that they answer depends on the view and the face: then a service resembles itself.
-/
namespace PgMetrics

open Activity (Alike)

variable {σ κ ν μ γ ω α : Type} {view : σ → ν} {face : κ → μ} {q : Verdict → Verdict → Prop}

def World.seen (view : σ → ν) (w : World σ) : ν × Caches := (view w.server, w.caches)

theorem World.seen_eq_iff {w w' : World σ} :
    w.seen view = w'.seen view ↔ view w.server = view w'.server ∧ w.caches = w'.caches :=
  Prod.ext_iff

/-- Whoever sees a world sees the view of its server and the caches of some numbers, and does not see
any difference that is in none of them. -/
structure World.Sees (seen : World σ → γ) (view : σ → ν) (slots : Nat → Prop) : Prop where
  ofServer : ∀ {w w' : World σ}, seen w = seen w' → view w.server = view w'.server
  ofCache : ∀ {w w' : World σ} {k : Nat}, slots k → seen w = seen w' →
    w.caches.cache k = w'.caches.cache k
  setServer : ∀ {w w' : World σ} {x x' : σ}, seen w = seen w' → view x = view x' →
    seen { w with server := x } = seen { w' with server := x' }
  store : ∀ {w w' : World σ} {k : Nat} (d : String) (e : CacheEntry), slots k → seen w = seen w' →
    seen { w with caches := w.caches.store k d e } =
      seen { w' with caches := w'.caches.store k d e }

theorem World.sees_seen (view : σ → ν) : World.Sees (World.seen view) view fun _ => True where
  ofServer hw := (World.seen_eq_iff.mp hw).1
  ofCache _ hw := congrArg (Caches.cache · _) (World.seen_eq_iff.mp hw).2
  setServer hw hx := World.seen_eq_iff.mpr ⟨hx, (World.seen_eq_iff.mp hw).2⟩
  store d e _ hw := World.seen_eq_iff.mpr
    ⟨(World.seen_eq_iff.mp hw).1, congrArg (Caches.store · _ d e) (World.seen_eq_iff.mp hw).2⟩

def Source.Idle (view : σ → ν) (source : Source σ κ) : Prop :=
  ∀ session version time x, let o := (source.run session version).run time x
    o.time = time ∧ view o.state = view x

/-- Scrapers behind the same caches whose sources run alike up to their verdicts. -/
inductive Scraper.Resembles (q : Verdict → Verdict → Prop) (view : σ → ν) (face : κ → μ) :
    Scraper σ κ → Scraper σ κ → Prop where
  | direct {a b : Source σ κ} : a.name = b.name →
      (∀ c c' : Session κ, c.look face = c'.look face → ∀ version,
        Alike view q (a.run c version) (b.run c' version)) →
      Resembles q view face (.direct a) (.direct b)
  | cached (slot ttl : Nat) {s s' : Scraper σ κ} : Resembles q view face s s' →
      Resembles q view face (.cached slot ttl s) (.cached slot ttl s')

structure Service.Resembles (q : Verdict → Verdict → Prop) (view : σ → ν) (face : κ → μ)
    (s s' : Service σ κ) : Prop where
  target : s.target = s'.target
  excluded : s.excluded = s'.excluded
  timeout : s.timeout = s'.timeout
  open_ : ∀ target, Alike view (fun x y => x.map face = y.map face) (s.gateway.open_ target)
    (s'.gateway.open_ target)
  announcement : ∀ h h', face h = face h' →
    Alike view Eq (s.gateway.announcement h) (s'.gateway.announcement h')
  databases : ∀ h h' excluded, face h = face h' →
    Alike view Eq (s.gateway.databases h excluded) (s'.gateway.databases h' excluded)
  close : ∀ h h', face h = face h' →
    Alike view (fun _ _ => True) (s.gateway.close h) (s'.gateway.close h')
  global : List.Forall₂ (Scraper.Resembles q view face) s.scrapers.global s'.scrapers.global
  perDatabase : List.Forall₂ (Scraper.Resembles q view face) s.scrapers.perDatabase
    s'.scrapers.perDatabase

/-- What is answered, found and left for the view depends on the view and the faces only. -/
structure Service.Impartial (s : Service σ κ) (view : σ → ν) (face : κ → μ) : Prop where
  open_ : ∀ target, Alike view (fun x y => x.map face = y.map face) (s.gateway.open_ target)
    (s.gateway.open_ target)
  announcement : ∀ h h', face h = face h' →
    Alike view Eq (s.gateway.announcement h) (s.gateway.announcement h')
  databases : ∀ h h' excluded, face h = face h' →
    Alike view Eq (s.gateway.databases h excluded) (s.gateway.databases h' excluded)
  close : ∀ h h', face h = face h' → Alike view Eq (s.gateway.close h) (s.gateway.close h')
  sources : ∀ r ∈ s.scrapers.all, ∀ c c' : Session κ, c.look face = c'.look face → ∀ version,
    Alike view Eq (r.source.run c version) (r.source.run c' version)

/-- If everything is seen, nothing is asked of the server and the sources. -/
theorem Service.impartial_id (s : Service σ κ) : s.Impartial id id where
  open_ target := (Alike.refl _).mono fun x y hxy => congrArg _ hxy
  announcement h h' hh := by
    cases hh
    exact Alike.refl _
  databases h h' excluded hh := by
    cases hh
    exact Alike.refl _
  close h h' hh := by
    cases hh
    exact Alike.refl _
  sources r _ := by
    rintro ⟨database, handle⟩ ⟨database', handle'⟩ hlook version
    cases hlook
    exact Alike.refl _

namespace Scraper

theorem Resembles.of_source {s : Scraper σ κ} (h : ∀ c c' : Session κ,
    c.look face = c'.look face → ∀ version,
      Alike view Eq (s.source.run c version) (s.source.run c' version)) :
    s.Resembles Eq view face s := by
  induction s with
  | direct source => exact .direct rfl h
  | cached slot ttl inner ih => exact .cached slot ttl (ih h)

section Names
variable {s s' : Scraper σ κ} (h : s.Resembles q view face s')

include h

theorem Resembles.name_eq : s.name = s'.name := by
  induction h with
  | direct hname _ => exact hname
  | cached slot ttl _ ih => exact congrArg ("cached_" ++ ·) ih

theorem Resembles.baseName_eq : s.baseName = s'.baseName := by
  induction h with
  | direct hname _ => exact hname
  | cached slot ttl _ ih => exact ih

end Names

section Sees
variable {seen : World σ → γ} {slots : Nat → Prop} (hseen : World.Sees seen view slots)

include hseen

theorem alike_onServer {r : α → α → Prop} {a b : Activity σ ω α} (h : Alike view r a b) :
    Alike seen r (onServer a) (onServer b) :=
  h.within (fun _ _ => hseen.ofServer) fun _ _ _ _ hs hw => hseen.setServer hw hs

theorem alike_asking {r : Except Failure α → Except Failure α → Prop} {x y : Query σ α}
    (h : Alike view r x y) : Alike seen r (asking x) (asking y) :=
  alike_onServer hseen (h.flatMapEvents _)

theorem alike_remembered {slot : Nat} (hslot : slots slot) (ttl : Nat) (database : String) :
    Alike seen Eq (remembered slot ttl database) (remembered slot ttl database) := by
  refine Alike.ask fun now w w' hw => ⟨?_, hw⟩
  rw [hseen.ofCache hslot hw]

theorem alike_remember {slot : Nat} (hslot : slots slot) (database : String) (e : CacheEntry) :
    Alike seen Eq (remember slot database e) (remember slot database e) :=
  Alike.modify fun _ _ => hseen.store database e hslot

theorem alike_run (hq : q (.ok ()) (.ok ())) {s s' : Scraper σ κ}
    (h : s.Resembles q view face s') (hslots : ∀ k ∈ s.slots, slots k) {c c' : Session κ}
    (hlook : c.look face = c'.look face) (version : Version) :
    Alike seen q (s.run c version) (s'.run c' version) := by
  have hdatabase : c.database = c'.database := congrArg Prod.fst hlook
  induction h with
  | direct hname hrun =>
    rw [run, run, hdatabase, hname]
    exact Alike.now.bind_eq fun _ => (Alike.emit _).bind_eq fun _ =>
      alike_onServer hseen ((hrun c c' hlook version).flatMapEvents _)
  | cached slot ttl _ ih =>
    rw [Scraper.slots, List.forall_mem_cons] at hslots
    rw [run, run, hdatabase]
    refine (alike_remembered hseen hslots.1 ttl _).bind_eq fun fresh => ?_
    cases fresh with
    | some os => exact (Alike.emitAll _).bind_eq fun _ => .done hq
    | none =>
      refine Alike.now.bind_eq fun start => ?_
      refine (((ih hslots.2).gather _).flatMapEvents _).bind fun x y hxy => ?_
      obtain ⟨verdict, os⟩ := x
      obtain ⟨verdict', os'⟩ := y
      obtain ⟨hverdict, rfl⟩ := hxy
      exact (Alike.emitAll _).bind_eq fun _ =>
        (alike_remember hseen hslots.1 _ _).bind_eq fun _ => .done hverdict

end Sees
end Scraper

namespace Scrape

variable {seen : World σ → γ} {slots : Nat → Prop}

section Segments
variable {blur : Ascribed → ω} (hseen : World.Sees seen view slots) (hq : q (.ok ()) (.ok ()))
  (hblur : ∀ owner name database verdict verdict', q verdict verdict' →
    blur (owner, .observed (success name database verdict)) =
      blur (owner, .observed (success name database verdict')))

include hseen hq hblur

theorem alike_segment {s s' : Scraper σ κ} (h : s.Resembles q view face s')
    (hslots : ∀ k ∈ s.slots, slots k) (owner : Option String) {c c' : Session κ}
    (hlook : c.look face = c'.look face) (version : Version) :
    Alike seen Eq ((ascribe owner (segment s c version)).mapEvents blur)
      ((ascribe owner (segment s' c' version)).mapEvents blur) := by
  have hdatabase : c.database = c'.database := congrArg Prod.fst hlook
  rw [segment, segment, hdatabase, h.name_eq]
  simp only [mapEvents_ascribe, Activity.mapEvents_bind, Activity.mapEvents_now,
    Activity.mapEvents_emit]
  refine Alike.now.bind_eq fun start => ?_
  refine ((Scraper.alike_run hseen hq h hslots hlook version).flatMapEvents _).bind
    fun verdict verdict' hverdict => ?_
  refine Alike.now.bind_eq fun stop => (Alike.emit _).bind_eq fun _ => ?_
  rw [hblur _ _ _ _ _ hverdict]
  exact .emit _

theorem alike_segments {scrapers scrapers' : List (Scraper σ κ)}
    (h : List.Forall₂ (Scraper.Resembles q view face) scrapers scrapers')
    (hslots : ∀ s ∈ scrapers, ∀ k ∈ s.slots, slots k) {c c' : Session κ}
    (hlook : c.look face = c'.look face) (version : Version) :
    Alike seen Eq ((ascribedSegments c version scrapers).mapEvents blur)
      ((ascribedSegments c' version scrapers').mapEvents blur) := by
  induction h with
  | nil => exact .pure ()
  | cons hs _ ih =>
    rw [List.forall_mem_cons] at hslots
    rw [ascribedSegments, ascribedSegments, Activity.mapEvents_bind, Activity.mapEvents_bind,
      hs.baseName_eq]
    exact (alike_segment hseen hq hblur hs hslots.1 _ hlook version).bind_eq fun _ => ih hslots.2

end Segments

theorem forall₂_filter_selected {scrapers scrapers' : List (Scraper σ κ)}
    (h : List.Forall₂ (Scraper.Resembles q view face) scrapers scrapers') (only : List String) :
    List.Forall₂ (Scraper.Resembles q view face) (scrapers.filter (selected only))
      (scrapers'.filter (selected only)) := by
  refine List.rel_filter (fun s s' hs => ?_) h
  simp only [selected, hs.baseName_eq]

section Service
variable {s s' : Service σ κ} (h : s.Resembles q view face s')

include h

theorem alike_connect (hseen : World.Sees seen view slots) (number : Nat) (target : Target) :
    Alike seen (SameAnswer face) (connect s.gateway number target)
      (connect s'.gateway number target) := by
  refine (Alike.emit _).bind_eq fun _ => ?_
  have hconnect : Alike view (SameAnswer face) (s.gateway.connect target)
      (s'.gateway.connect target) := by
    refine (h.open_ target).bind fun x y hxy => ?_
    cases x <;> cases y <;> simp only [Except.map, reduceCtorEq, Except.error.injEq,
      Except.ok.injEq] at hxy
    · exact .done (congrArg Except.error hxy)
    · exact .done (congrArg (fun x => Except.ok (target.database, x)) hxy)
  refine (Scraper.alike_asking hseen hconnect).bind fun x y hxy => ?_
  rcases hxy.cases with ⟨failure, rfl, rfl⟩ | ⟨c, c', rfl, rfl, hlook⟩
  · exact .done rfl
  · exact (Alike.emit _).bind_eq fun _ => .done (congrArg Except.ok hlook)

theorem alike_close (hseen : World.Sees seen view slots) (number : Nat) {c c' : Session κ}
    (hlook : c.look face = c'.look face) :
    Alike seen Eq (close s.gateway number c) (close s'.gateway number c') :=
  (Alike.emit _).bind_eq fun _ =>
    (Scraper.alike_asking hseen (h.close _ _ (congrArg Prod.snd hlook))).bind fun _ _ _ => .pure _

/-- What resembles each other goes alike, if what the verdicts make of the events is blurred. -/
theorem alike_collect (hq : q (.ok ()) (.ok ())) (blur : Event → ω)
    (hblur : ∀ name database verdict verdict', q verdict verdict' →
      blur (.observed (success name database verdict)) =
        blur (.observed (success name database verdict'))) (only : List String) :
    Alike (World.seen view) Eq
      ((collect s.gateway s.target s.scrapers s.excluded only).mapEvents blur)
      ((collect s'.gateway s'.target s'.scrapers s'.excluded only).mapEvents blur) := by
  have hseen := World.sees_seen view
  have hblur' : ∀ (owner : Option String) name database verdict verdict', q verdict verdict' →
      blur (Prod.snd (owner, Event.observed (success name database verdict))) =
        blur (Prod.snd (owner, Event.observed (success name database verdict'))) :=
    fun _ => hblur
  have hparallel : Parallel face
      (fun r a b => Alike (World.seen view) r (a.mapEvents fun e => blur e.2)
        (b.mapEvents fun e => blur e.2))
      s.gateway s'.gateway s.excluded s.scrapers s'.scrapers only only := {
    pure := .done
    bind := fun hab hnext => by
      rw [Activity.mapEvents_bind, Activity.mapEvents_bind]
      exact hab.bind hnext
    observed := fun o => .emit _
    connect := fun number target => by
      rw [mapEvents_ascribe, mapEvents_ascribe]
      exact (alike_connect h hseen number target).flatMapEvents _
    announcement := fun c c' hlook => by
      rw [mapEvents_ascribe, mapEvents_ascribe]
      exact (Scraper.alike_asking hseen
        (h.announcement _ _ (congrArg Prod.snd hlook))).flatMapEvents _
    databases := fun c c' hlook => by
      rw [mapEvents_ascribe, mapEvents_ascribe]
      exact (Scraper.alike_asking hseen
        (h.databases _ _ s.excluded (congrArg Prod.snd hlook))).flatMapEvents _
    close := fun number c c' hlook => by
      rw [mapEvents_ascribe, mapEvents_ascribe]
      exact (alike_close h hseen number hlook).flatMapEvents _
    global := fun c c' hlook version =>
      alike_segments hseen hq hblur' (forall₂_filter_selected h.global only)
        (fun _ _ _ _ => trivial) hlook version
    perDatabase := fun c c' hlook version =>
      alike_segments hseen hq hblur' (forall₂_filter_selected h.perDatabase only)
        (fun _ _ _ _ => trivial) hlook version }
  have hcollect := hparallel.collect s.target
  rw [← Activity.mapEvents_mapEvents blur Prod.snd, ← Activity.mapEvents_mapEvents blur Prod.snd,
    forget_ascribedCollect, forget_ascribedCollect] at hcollect
  rwa [← h.excluded, ← h.target]

end Service
end Scrape

namespace Service.Impartial

variable {s : Service σ κ} (h : s.Impartial view face)

include h

theorem resembles : s.Resembles Eq view face s where
  target := rfl
  excluded := rfl
  timeout := rfl
  open_ := h.open_
  announcement := h.announcement
  databases := h.databases
  close h₁ h₂ hface := (h.close h₁ h₂ hface).mono fun _ _ _ => trivial
  global := List.forall₂_same.mpr fun r hr =>
    .of_source (h.sources r (List.mem_append_left _ hr))
  perDatabase := List.forall₂_same.mpr fun r hr =>
    .of_source (h.sources r (List.mem_append_right _ hr))

/-- A scrape within its time does not tell connections apart. -/
theorem attempt (only : List String) :
    Alike (World.seen view) Eq (s.attempt only) (s.attempt only) := by
  have hcollect := Scrape.alike_collect h.resembles rfl (fun e => e)
    (fun _ _ _ _ hverdict => by rw [hverdict]) only
  rw [Activity.mapEvents_id] at hcollect
  exact hcollect.limit s.timeout

end Service.Impartial
end PgMetrics
