import PgMetrics.Proofs.Scrape.Impartial
import PgMetrics.Proofs.Service.Traffic
import PgMetrics.Rehearsal.Part

/-! # The scripted server does not tell connections apart

Its answers depend on the script alone, and scripted scrapers without a cue for the connection make
observations that depend on the database, the version and how often they have run.  Signs of life
change its records of connections only.

So a view need not show more than the script, perhaps without what is said when a connection is given
back, and how often the scrapers have run whose observations are looked at.
-/
namespace PgMetrics

open Activity (Alike)

namespace Rehearsal

variable {α β γ δ : Type}

def Stage.visible (s : Stage) : Script × Table String Nat := (s.script, s.calls)

def Stage.shown (script : Script → γ) (calls : Table String Nat → δ) (s : Stage) : γ × δ :=
  (script s.script, calls s.calls)

def Script.lenient (s : Script) : Script := { s with failClose := false }

theorem Script.field_eq {s s' : Script} (h : s.lenient = s'.lenient) (field : Script → α)
    (hfield : ∀ s, field s.lenient = field s) : field s = field s' := by
  rw [← hfield s, h, hfield]

def Counts (calls : Table String Nat → δ) (name : String) : Prop :=
  ∀ t t', calls t = calls t' → t.get? name = t'.get? name ∧
    ∀ n, calls (t.put name n) = calls (t'.put name n)

def Hides (calls : Table String Nat → δ) (name : String) : Prop :=
  ∀ t n, calls (t.put name n) = calls t

theorem counts_id (name : String) : Counts id name := by
  rintro t _ rfl
  exact ⟨rfl, fun _ => rfl⟩

theorem counts_map {names : List String} {name : String} (h : name ∈ names) :
    Counts (fun t => names.map t.get?) name := by
  intro t t' ht
  have hget := List.map_inj_left.mp ht
  refine ⟨hget name h, fun n => List.map_congr_left fun other hother => ?_⟩
  by_cases hname : other = name
  · rw [hname, Table.get?_put_self, Table.get?_put_self]
  · rw [Table.get?_put_of_ne _ _ hname, Table.get?_put_of_ne _ _ hname, hget other hother]

theorem hides_map {names : List String} {name : String} (h : name ∉ names) :
    Hides (fun t => names.map t.get?) name := by
  refine fun t n => List.map_congr_left fun other hother => ?_
  have hne : other ≠ name := by
    rintro rfl
    exact h hother
  exact Table.get?_put_of_ne t n hne

namespace Stage

def faceless (_ : Nat) : Unit := ()

section Shown
variable {script : Script → γ} {calls : Table String Nat → δ}

theorem shown_eq_iff {s s' : Stage} : s.shown script calls = s'.shown script calls ↔
    script s.script = script s'.script ∧ calls s.calls = calls s'.calls := Prod.ext_iff

theorem alike_delay {span : Script → Nat} (hspan : ∀ x y, script x = script y → span x = span y) :
    Alike (shown script calls) Eq (delay span : Activity Stage Empty Unit) (delay span) := by
  refine Alike.state.bind fun s s' hs => ?_
  rw [hspan _ _ (shown_eq_iff.mp hs).1]
  cases span s'.script with
  | zero => exact .pure ()
  | succ n => exact .pause (n + 1)

def granted (message : String) : Option α → Except Failure α
  | some a => .ok a
  | none => .error ⟨message, []⟩

theorem alike_reply {r : Except Failure α → Except Failure α → Prop} {span : Script → Nat}
    (hspan : ∀ x y, script x = script y → span x = span y) {message : String}
    {answer answer' : Stage → Option α × Stage}
    (hanswer : ∀ s s', s.shown script calls = s'.shown script calls →
      r (granted message (answer s).1) (granted message (answer' s').1) ∧
        (answer s).2.shown script calls = (answer' s').2.shown script calls) :
    Alike (shown script calls) r (reply span message answer) (reply span message answer') := by
  refine (alike_delay hspan).bind_eq fun _ => ?_
  have hasked : Alike (shown script calls) (fun x y => r (granted message x) (granted message y))
      (.ask fun _ s => answer s : Activity Stage Empty (Option α)) (.ask fun _ s => answer' s) :=
    .ask fun _ s s' hs => hanswer s s' hs
  refine hasked.bind fun x y hxy => ?_
  cases x <;> cases y <;> exact .done hxy

section Lenient
variable (hscript : ∀ x y, script x = script y → x.lenient = y.lenient)

include hscript

theorem alike_open (target : Target) :
    Alike (shown script calls) (fun x y => x.map faceless = y.map faceless) (open_ target)
      (open_ target) := by
  refine alike_reply (fun x y h => Script.field_eq (hscript x y h) _ fun _ => rfl) fun s s' hs => ?_
  have hrefused : s.script.refused = s'.script.refused :=
    Script.field_eq (hscript _ _ (shown_eq_iff.mp hs).1) _ fun _ => rfl
  rw [hrefused]
  by_cases h : s'.script.refused.contains target.database
  · simp only [if_pos h]
    exact ⟨trivial, hs⟩
  · simp only [if_neg h]
    exact ⟨rfl, hs⟩

theorem alike_announcement (h h' : Nat) :
    Alike (shown script calls) Eq (announcement h) (announcement h') := by
  refine alike_reply (fun x y h => Script.field_eq (hscript x y h) _ fun _ => rfl) fun s s' hs =>
    ⟨?_, hs⟩
  have hlenient := hscript _ _ (shown_eq_iff.mp hs).1
  have hfails : s.script.failVersion = s'.script.failVersion :=
    Script.field_eq hlenient _ fun _ => rfl
  have hversion : s.script.version = s'.script.version :=
    Script.field_eq hlenient _ fun _ => rfl
  simp only [hfails, hversion]

theorem alike_databases (h h' : Nat) (excluded : List String) :
    Alike (shown script calls) Eq (databases h excluded) (databases h' excluded) := by
  refine alike_reply (fun x y h => Script.field_eq (hscript x y h) _ fun _ => rfl)
    fun s s' hs => ?_
  have hlenient := hscript _ _ (shown_eq_iff.mp hs).1
  have hdiscovery : s.script.failDiscovery = s'.script.failDiscovery :=
    Script.field_eq hlenient _ fun _ => rfl
  have hdatabases : s.script.databases = s'.script.databases :=
    Script.field_eq hlenient _ fun _ => rfl
  rw [hdiscovery, hdatabases]
  by_cases hfails : s'.script.failDiscovery
  · simp only [if_pos hfails]
    exact ⟨trivial, hs⟩
  · simp only [if_neg hfails]
    exact ⟨trivial, hs⟩

/-- Whatever is said, giving a connection back takes its time and leaves what is shown. -/
theorem alike_close (h h' : Nat) :
    Alike (shown script calls) (fun _ _ => True) (close h) (close h') := by
  have hkeeps : ∀ (h : Nat) (s : Stage), (if s.script.failClose then (none, s)
      else (some (), { s with closed := s.closed ++ [h] })).2.shown script calls =
        s.shown script calls := by
    intro h s
    by_cases hfails : s.script.failClose
    · rw [if_pos hfails]
    · rw [if_neg hfails]
      rfl
  exact alike_reply (fun x y h => Script.field_eq (hscript x y h) _ fun _ => rfl) fun s s' hs =>
    ⟨trivial, (hkeeps h s).trans (hs.trans (hkeeps h' s').symm)⟩

end Lenient

theorem alike_close_eq (h h' : Nat) :
    Alike (shown id calls) Eq (close h) (close h') := by
  refine alike_reply (fun x y h => congrArg Script.closeDelay h) fun s s' hs => ?_
  obtain ⟨hscript, hcalls⟩ := shown_eq_iff.mp hs
  rw [show s.script = s'.script from hscript]
  by_cases hfails : s'.script.failClose
  · simp only [if_pos hfails]
    exact ⟨trivial, hs⟩
  · simp only [if_neg hfails]
    exact ⟨trivial, shown_eq_iff.mpr ⟨rfl, hcalls⟩⟩

end Shown

/-- Opening, using and closing a connection changes the records of connections only. -/
theorem spares_reply (span : Script → Nat) (message : String) {answer : Stage → Option α × Stage}
    (hanswer : ∀ s, (answer s).2.visible = s.visible) :
    (reply span message answer).Spares visible := by
  refine Activity.Spares.bind ?_ fun _ => ?_
  · refine Activity.Spares.bind (fun _ _ => ⟨rfl, trivial⟩) fun s => ?_
    cases span s.script <;> trivial
  · refine Activity.Spares.bind (fun _ s => ⟨hanswer s, trivial⟩) fun x => ?_
    cases x <;> trivial

theorem spares_open (target : Target) : (open_ target).Spares visible := by
  refine spares_reply _ _ fun s => ?_
  by_cases hrefused : s.script.refused.contains target.database
  · simp only [if_pos hrefused]
  · simp only [if_neg hrefused]
    rfl

theorem spares_close (h : Nat) : (close h).Spares visible := by
  refine spares_reply _ _ fun s => ?_
  by_cases hfails : s.script.failClose
  · simp only [if_pos hfails]
  · simp only [if_neg hfails]
    rfl

end Stage

/-- Signs of life change nothing that answers and observations depend on. -/
theorem spares_askPing (s : Service Stage Nat) (hs : s.gateway = Stage.gateway) :
    (Move.askPing : Move Stage).Spares (World.seen Stage.visible) s := by
  have hseen : ∀ (w : World Stage) x, x.visible = w.server.visible →
      World.seen Stage.visible { w with server := x } = w.seen Stage.visible :=
    fun _ _ hx => World.seen_eq_iff.mpr ⟨hx, rfl⟩
  refine Service.spares_ping hseen ?_ ?_ ?_
  · rw [hs]
    exact Stage.spares_open s.target
  · rw [hs]
    exact fun _ => Stage.spares_reply _ _ fun _ => rfl
  · rw [hs]
    exact Stage.spares_close

def ValueCue.ofConnection : ValueCue → Bool
  | .connection => true
  | _ => false

def Part.verdict (p : Part) (number : Nat) : Verdict :=
  if p.failing.fails number then .error ⟨p.name ++ " failed", []⟩ else .ok ()

/-- Parts that fail in different runs run alike up to that. -/
theorem alike_part {script : Script → γ} {calls : Table String Nat → δ}
    {q : Verdict → Verdict → Prop} {p : Part} (failing : Failing)
    (hq : ∀ number, q (p.verdict number) ({ p with failing }.verdict number))
    (hp : ∀ c ∈ p.cues, c.value.ofConnection = false) (hcalls : Counts calls p.name)
    {c c' : Session Nat} (hlook : c.look Stage.faceless = c'.look Stage.faceless)
    (version : Version) :
    Alike (Stage.shown script calls) q (p.run c version) ({ p with failing }.run c' version) := by
  have hdatabase : c.database = c'.database := congrArg Prod.fst hlook
  have hcues : ∀ number, (p.cues.map fun cue => cue.observation c version number) =
      p.cues.map fun cue => cue.observation c' version number := by
    refine fun number => List.map_congr_left fun cue hcue => ?_
    have hvalue := hp cue hcue
    unfold Cue.observation
    rw [hdatabase]
    cases hv : cue.value <;> simp_all [ValueCue.ofConnection]
  unfold Part.run
  simp only [hcues]
  refine Alike.bind_eq (.ask fun _ s s' hs => ?_) fun number => ?_
  · obtain ⟨hscript, hshown⟩ := Stage.shown_eq_iff.mp hs
    obtain ⟨hget, hput⟩ := hcalls _ _ hshown
    simp only [Stage.shown_eq_iff, Stage.callsOf, Stage.countCall, hscript, hget, hput, and_self]
  · cases p.cues.map fun cue => cue.observation c' version number with
    | nil => exact .done (hq number)
    | cons first rest =>
      refine (Alike.emit first).bind_eq fun _ => ?_
      by_cases hdelay : p.delay ≠ 0
      · simp only [if_pos hdelay]
        exact (Alike.pause p.delay).bind_eq fun _ => (Alike.emitAll rest).bind_eq fun _ =>
          .done (hq number)
      · simp only [if_neg hdelay]
        exact (Alike.emitAll rest).bind_eq fun _ => .done (hq number)

/-- A part that does not pause takes no time, and changes no more than the number of its runs. -/
theorem idle_part {script : Script → γ} {calls : Table String Nat → δ} {p : Part}
    (hdelay : p.delay = 0) (hcalls : Hides calls p.name) :
    p.source.Idle (Stage.shown script calls) := by
  intro session version time s
  have hshown : (s.countCall p.name).shown script calls = s.shown script calls :=
    Stage.shown_eq_iff.mpr ⟨rfl, hcalls _ _⟩
  simp only [Part.source, Part.run, Activity.run_bind, Activity.run_ask, hdelay]
  cases p.cues.map fun cue => cue.observation session version (s.callsOf p.name + 1) with
  | nil => exact ⟨rfl, hshown⟩
  | cons first rest =>
    simp only [Activity.run_bind, Activity.run_emit, Activity.run_emitAll, Activity.run_pure,
      ne_eq, not_true_eq_false, if_false]
    exact ⟨trivial, hshown⟩

/-- A service on the scripted server is impartial if its scrapers have no cue for the connection and
their runs are shown. -/
theorem impartial_of_counts {s : Service Stage Nat} {calls : Table String Nat → δ}
    (hs : s.gateway = Stage.gateway)
    (hparts : ∀ r ∈ s.scrapers.all, ∃ p : Part, r.source = p.source ∧
      (∀ c ∈ p.cues, c.value.ofConnection = false) ∧ Counts calls p.name) :
    s.Impartial (Stage.shown id calls) Stage.faceless := by
  have hscript : ∀ x y : Script, id x = id y → x.lenient = y.lenient :=
    fun _ _ h => congrArg Script.lenient h
  refine ⟨?_, ?_, ?_, ?_, fun r hr c c' hlook version => ?_⟩
  · rw [hs]
    exact fun target => Stage.alike_open hscript target
  · rw [hs]
    exact fun h h' _ => Stage.alike_announcement hscript h h'
  · rw [hs]
    exact fun h h' excluded _ => Stage.alike_databases hscript h h' excluded
  · rw [hs]
    exact fun h h' _ => Stage.alike_close_eq h h'
  · obtain ⟨p, hsource, hp, hcounts⟩ := hparts r hr
    rw [hsource]
    exact alike_part p.failing (fun _ => rfl) hp hcounts hlook version

theorem impartial_of_parts {s : Service Stage Nat} (hs : s.gateway = Stage.gateway)
    (hparts : ∀ r ∈ s.scrapers.all, ∃ p : Part, r.source = p.source ∧
      ∀ c ∈ p.cues, c.value.ofConnection = false) : s.Impartial Stage.visible Stage.faceless := by
  change s.Impartial (Stage.shown id id) Stage.faceless
  refine impartial_of_counts hs fun r hr => ?_
  obtain ⟨p, hsource, hp⟩ := hparts r hr
  exact ⟨p, hsource, hp, counts_id p.name⟩

end Rehearsal
end PgMetrics
