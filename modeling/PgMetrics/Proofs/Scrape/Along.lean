import PgMetrics.Proofs.Scrape.Connections
import PgMetrics.Proofs.Scraper.Path

/-! # Along the paths of a scrape

A scrape keeps something if each of its steps does and each segment that it runs on the connection
opened last.  What is kept may depend on how far the scrape has come with its connections; less may
hold where it is dropped.  Others may do anything meanwhile but change the caches.
-/
namespace PgMetrics.Scrape

open Activity (Path)

variable {σ κ α β γ : Type}

/-- Every path of an activity leads from `pre` to `post`, or to `cut` if it is dropped. -/
def Along (view : World σ → γ) (pre : Log → Moment σ → Prop) (a : Activity (World σ) Event α)
    (post : α → Log → Moment σ → Prop) (cut : Log → Moment σ → Prop) : Prop :=
  ∀ log (m : Moment σ) es (m' : Moment σ) v, pre log m →
    Path view a m.time m.world es m'.time m'.world v →
    match v with
    | none => cut (log ++ es) m'
    | some x => post x (log ++ es) m'

theorem along_bind {view : World σ → γ} {pre : Log → Moment σ → Prop}
    {a : Activity (World σ) Event α} {next : α → Activity (World σ) Event β}
    {mid : α → Log → Moment σ → Prop} {post : β → Log → Moment σ → Prop}
    {cut : Log → Moment σ → Prop} (ha : Along view pre a mid cut)
    (hnext : ∀ x, Along view (mid x) (next x) post cut) : Along view pre (a >>= next) post cut := by
  intro log m es m' v hpre hpath
  rcases hpath.bind_cases with ⟨rfl, hcut⟩ | ⟨es₁, t₁, w₁, x, es₂, h₁, h₂, rfl⟩
  · exact ha log m es m' none hpre hcut
  · have hmid := ha log m es₁ ⟨t₁, w₁⟩ (some x) hpre h₁
    rw [← List.append_assoc]
    exact hnext x _ ⟨t₁, w₁⟩ es₂ m' v hmid h₂

theorem along_and {view : World σ → γ} {P : Prop} {pre : Log → Moment σ → Prop}
    {a : Activity (World σ) Event α} {post : α → Log → Moment σ → Prop}
    {cut : Log → Moment σ → Prop} (h : P → Along view pre a post cut) :
    Along view (fun log m => P ∧ pre log m) a post cut := by
  rintro log m es m' v ⟨hp, hpre⟩ hpath
  exact h hp log m es m' v hpre hpath

theorem along_or {view : World σ → γ} {pre pre' : Log → Moment σ → Prop}
    {a : Activity (World σ) Event α} {post : α → Log → Moment σ → Prop}
    {cut : Log → Moment σ → Prop} (h : Along view pre a post cut) (h' : Along view pre' a post cut) :
    Along view (fun log m => pre log m ∨ pre' log m) a post cut := by
  rintro log m es m' v (hpre | hpre) hpath
  · exact h log m es m' v hpre hpath
  · exact h' log m es m' v hpre hpath

theorem along_exists {ι : Type} {view : World σ → γ} {pre : ι → Log → Moment σ → Prop}
    {a : Activity (World σ) Event α} {post : α → Log → Moment σ → Prop}
    {cut : Log → Moment σ → Prop} (h : ∀ i, Along view (pre i) a post cut) :
    Along view (fun log m => ∃ i, pre i log m) a post cut := by
  rintro log m es m' v ⟨i, hpre⟩ hpath
  exact h i log m es m' v hpre hpath

theorem along_post {view : World σ → γ} {pre : Log → Moment σ → Prop}
    {a : Activity (World σ) Event α} {post post' : α → Log → Moment σ → Prop}
    {cut : Log → Moment σ → Prop} (h : Along view pre a post cut)
    (hpost : ∀ x log m, post x log m → post' x log m) : Along view pre a post' cut := by
  intro log m es m' v hpre hpath
  have hend := h log m es m' v hpre hpath
  cases v with
  | none => exact hend
  | some x => exact hpost x _ _ hend

/-- A segment is dropped in its run, or the run is followed by its two reports. -/
theorem path_segment_cases {view : World σ → γ} {s : Scraper σ κ} {session : Session κ}
    {version : Version} {m m' : Moment σ} {es : Log} {v : Option Unit}
    (h : Path view (segment s session version) m.time m.world es m'.time m'.world v) :
    v = none ∧ Path view (s.run session version) m.time m.world es m'.time m'.world none ∨
      ∃ run w₁ verdict, v = some () ∧ view w₁ = view m'.world ∧
        Path view (s.run session version) m.time m.world run m'.time w₁ (some verdict) ∧
        es = run ++ [(m'.time, .observed (duration s.name session.database (m'.time - m.time))),
          (m'.time, .observed (success s.name session.database verdict))] := by
  rcases h.of_now_bind.bind_cases with hcut | ⟨run, t₁, w₁, verdict, es₂, hrun, hrest, rfl⟩
  · exact Or.inl hcut
  · obtain ⟨es₃, hsuccess, rfl⟩ := hrest.of_now_bind.of_emit_bind
    obtain ⟨rfl, rfl, hw₁, rfl⟩ := hsuccess.of_emit
    exact Or.inr ⟨run, w₁, verdict, rfl, hw₁, hrun, rfl⟩

/-- A session on a connection that the gateway opens for its database. -/
def Opens (g : Gateway σ κ) (target : Target) (session : Session κ) : Prop :=
  (g.open_ (target.withDatabase session.database)).Reaches (.ok session.handle)

structure Maintained (view : World σ → γ) (g : Gateway σ κ) (target : Target)
    (scrapers : List (Scraper σ κ)) (kept : Contact → Log → Moment σ → Prop) (cut : Log → Moment σ → Prop) : Prop where
  caches : ∀ w w', view w = view w' → w.caches = w'.caches
  weaken : ∀ {c log m}, kept c log m → cut log m
  stable : ∀ {c log} {m m' : Moment σ}, kept c log m → m.time ≤ m'.time →
    m.world.caches = m'.world.caches → kept c log m'
  step : ∀ {c c' e log m}, kept c log m → c.Step target.database e c' →
    kept c' (log ++ [(m.time, e)]) m
  segment : ∀ s ∈ scrapers, ∀ {c} {session : Session κ} {version},
    c.database? target.database = some session.database → Opens g target session →
    Along view (kept c) (segment s session version) (fun _ => kept c) cut

namespace Maintained

variable {view : World σ → γ} {g : Gateway σ κ} {target : Target} {scrapers : List (Scraper σ κ)}
  {kept : Contact → Log → Moment σ → Prop} {cut : Log → Moment σ → Prop}

section
variable (h : Maintained view g target scrapers kept cut)

include h

theorem pure {c : Contact} {post : α → Log → Moment σ → Prop} {x : α}
    (hpost : ∀ log m, kept c log m → post x log m) :
    Along view (kept c) (Pure.pure x) post cut := by
  intro log m es m' v hkept hpath
  obtain ⟨rfl, ht, hw, rfl⟩ := hpath.of_pure
  rw [List.append_nil]
  exact hpost log m' (h.stable hkept (Nat.le_of_eq ht.symm) (h.caches _ _ hw))

theorem emit {c c' : Contact} {e : Event} (hstep : c.Step target.database e c') :
    Along view (kept c) (.emit e) (fun _ => kept c') cut := by
  intro log m es m' v hkept hpath
  obtain ⟨rfl, ht, hw, rfl⟩ := hpath.of_emit
  exact h.stable (h.step hkept hstep) (Nat.le_of_eq ht.symm) (h.caches _ _ hw)

theorem asking (q : Query σ α) (c : Contact) :
    Along view (kept c) (Scraper.asking q) (fun x log m => q.Reaches x ∧ kept c log m) cut := by
  intro log m es m' v hkept hpath
  have hkept' : kept c log m' :=
    h.stable hkept hpath.le (Scraper.caches_of_onServer h.caches hpath)
  obtain ⟨rfl, hasked⟩ := Scraper.path_asking (fun _ => ()) (fun _ _ _ => rfl) hpath
  rw [List.append_nil]
  cases v with
  | none => exact h.weaken hkept'
  | some x => exact ⟨⟨_, _, _, _, _, hasked⟩, hkept'⟩

omit h in
theorem opens_of_connect {t : Target} {session : Session κ} (ht : target.withDatabase t.database = t)
    (hreaches : (g.connect t).Reaches (.ok session)) :
    session.database = t.database ∧ Opens g target session := by
  obtain ⟨_, _, _, _, _, hpath⟩ := hreaches
  rcases hpath.bind_cases with ⟨hv, _⟩ | ⟨es₁, t₁, s₁, answer, es₂, hopened, hrest, _⟩
  · cases hv
  · cases answer with
    | error failure =>
      obtain ⟨_, _, _, hv⟩ := hrest.of_pure
      cases hv
    | ok handle =>
      obtain ⟨_, _, _, hv⟩ := hrest.of_pure
      cases hv
      refine ⟨rfl, ?_⟩
      rw [Opens, ht]
      exact ⟨_, _, _, _, _, hopened⟩

theorem connect {c c₁ c₂ : Contact} {number : Nat} {t : Target}
    (ht : target.withDatabase t.database = t)
    (hasks : c.Step target.database (.requested t.database) c₁)
    (hopens : c₁.Step target.database (.opened number t.database) c₂) :
    Along view (kept c) (Scrape.connect g number t) (fun answer log m =>
      match answer with
      | .error _ => kept c₁ log m
      | .ok session => (session.database = t.database ∧ Opens g target session) ∧ kept c₂ log m)
      cut := by
  refine along_bind (h.emit hasks) fun _ => along_bind (h.asking _ c₁) fun answer =>
    along_and fun hq => ?_
  cases answer with
  | error failure => exact h.pure fun _ _ => id
  | ok session =>
    have hsession := opens_of_connect ht hq
    exact along_bind (h.emit hopens) fun _ => h.pure fun _ _ hkept => ⟨hsession, hkept⟩

theorem close {c c' : Contact} {number : Nat} (session : Session κ)
    (hcloses : c.Step target.database (.closed number) c') :
    Along view (kept c) (Scrape.close g number session) (fun _ => kept c') cut :=
  along_bind (h.emit hcloses) fun _ => along_bind (h.asking _ c') fun _ =>
    along_and fun _ => h.pure fun _ _ => id

theorem segments {c : Contact} {session : Session κ} {version : Version}
    (hc : c.database? target.database = some session.database) (hopens : Opens g target session)
    {ss : List (Scraper σ κ)} (hss : ∀ s ∈ ss, s ∈ scrapers) :
    Along view (kept c) (Scrape.segments session version ss) (fun _ => kept c) cut := by
  induction ss with
  | nil => exact h.pure fun _ _ => id
  | cons s rest ih =>
    rw [List.forall_mem_cons] at hss
    exact along_bind (h.segment s hss.1 hc hopens) fun _ => ih hss.2

theorem walk {version : Version} {ss : List (Scraper σ κ)}
    (hss : ∀ s ∈ ss, s ∈ scrapers) (databases : List String) (k : Nat) :
    Along view (kept (.home k none)) (Scrape.walk g target version ss (k + 1) databases)
      (fun _ log m => ∃ k asked, kept (.home k asked) log m) cut := by
  induction databases generalizing k with
  | nil => exact h.pure fun _ _ hkept => ⟨k, none, hkept⟩
  | cons d rest ih =>
    refine along_bind (h.connect (t := target.withDatabase d) rfl (.asksNext k d) (.opensNext k d))
      fun answer => ?_
    cases answer with
    | error failure => exact h.pure fun _ _ hkept => ⟨k, some d, hkept⟩
    | ok session =>
      refine along_and fun ⟨hdatabase, hopens⟩ => ?_
      have haway : (Contact.away k d).database? target.database = some session.database :=
        congrArg some hdatabase.symm
      exact along_bind (h.segments haway hopens hss) fun _ =>
        along_bind (h.close session (.closes k d)) fun _ => ih (k + 1)

end

/-- A scrape that has greeted turns back if it cannot read the version, and else stays until it has
walked. -/
theorem onServer {set : ScraperSet σ κ} (h : Maintained view g target set.all kept cut)
    (excluded only : List String) {session : Session κ}
    (hsession : session.database = target.database) (hopens : Opens g target session) :
    Along view (kept .greeted) (Scrape.onServer g target set excluded only session)
      (fun _ log m => kept .greeted log m ∨ ∃ k asked, kept (.home k asked) log m) cut := by
  have hglobal : ∀ s ∈ set.global.filter (selected only), s ∈ set.all := fun s hs =>
    List.mem_append_left _ (List.mem_of_mem_filter hs)
  have hperDatabase : ∀ s ∈ set.perDatabase.filter (selected only), s ∈ set.all := fun s hs =>
    List.mem_append_right _ (List.mem_of_mem_filter hs)
  have hhome : (Contact.home 0 none).database? target.database = some session.database :=
    congrArg some hsession.symm
  refine along_bind (h.asking _ _) fun answer => along_and fun _ => ?_
  cases answer with
  | error failure => exact h.pure fun _ _ => Or.inl
  | ok raw =>
    refine along_bind (h.emit (.informs _)) fun _ => ?_
    refine along_bind (h.asking _ _) fun answer => along_and fun _ => ?_
    cases answer with
    | error failure => exact h.pure fun _ _ hkept => Or.inr ⟨0, none, hkept⟩
    | ok databases =>
      refine along_bind (h.segments hhome hopens hglobal) fun _ => ?_
      exact along_post (h.walk hperDatabase databases 0) fun _ _ _ => Or.inr

/-- A scrape that is not dropped has been refused or is over. -/
theorem collect {set : ScraperSet σ κ} (h : Maintained view g target set.all kept cut)
    (excluded only : List String) :
    Along view (kept .idle) (Scrape.collect g target set excluded only)
      (fun _ log m => ∃ c, (c = .refused ∨ ∃ k, c = .gone k) ∧ kept c log m) cut := by
  refine along_bind (h.connect rfl .asks .opens) fun answer => ?_
  cases answer with
  | error failure =>
    exact along_post (h.emit .refused) fun _ _ _ hkept => ⟨.refused, Or.inl rfl, hkept⟩
  | ok session =>
    refine along_and fun ⟨hdatabase, hopens⟩ => along_bind (h.emit .greets) fun _ => ?_
    refine along_bind (h.onServer excluded only hdatabase hopens) fun _ => along_or ?_ ?_
    · exact along_post (h.close session .turnsBack) fun _ _ _ hkept =>
        ⟨.gone 0, Or.inr ⟨0, rfl⟩, hkept⟩
    · exact along_exists fun k => along_exists fun asked =>
        along_post (h.close session (.leaves k asked)) fun _ _ _ hkept =>
          ⟨.gone k, Or.inr ⟨k, rfl⟩, hkept⟩

end Maintained
end PgMetrics.Scrape
