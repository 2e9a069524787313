import PgMetrics.Proofs.CommandLine.Steps

/-! # The switches of the scrapers

Every scraper has two switches, one to turn it on and one to turn it off.  The last one among the
arguments decides; a scraper that no argument switches runs if it is enabled by default.  Switches
of other scrapers, other options and the environment have no say.
-/
namespace PgMetrics.CommandLine

/-- What an argument says about a scraper, if it is one of its two switches. -/
def switched? (name arg : String) : Option Bool :=
  if arg = "--collector." ++ name then some true
  else if arg = "--no-collector." ++ name then some false
  else none

def lastSwitched? (name : String) (args : List String) : Option Bool :=
  (args.filterMap (switched? name)).getLast?

def Occurrence.switched? (name : String) : Occurrence → Option Bool
  | .switch (.collector other on) _ => if other = name then some on else none
  | _ => none

theorem Flag.collector_mem_all {name : String} (h : name ∈ Catalog.names) (on : Bool) :
    Flag.switch (.collector name on) ∈ Flag.all := by
  obtain ⟨e, he, rfl⟩ := List.mem_map.mp h
  have hcollectors : Flag.switch (.collector e.name on) ∈ Flag.collectors :=
    List.mem_flatMap.mpr ⟨e, he, by cases on <;> simp⟩
  simp [Flag.all, hcollectors]

theorem Flag.collector_ne_of_ofLetter? {c : Char} {f : Flag} (h : Flag.ofLetter? c = some f)
    (name : String) (on : Bool) : f ≠ .switch (.collector name on) := by
  rintro rfl
  simpa [Flag.letter?, Switch.letter?] using List.find?_some h

section
variable {name arg : String} {on : Bool}

theorem switched?_eq_some_iff :
    switched? name arg = some on ↔ arg = "--" ++ (Switch.collector name on).name := by
  have hon : "--" ++ (Switch.collector name true).name = "--collector." ++ name := by
    simp [Switch.name, ← String.append_assoc]
  have hoff : "--" ++ (Switch.collector name false).name = "--no-collector." ++ name := by
    simp [Switch.name, ← String.append_assoc]
  have hne : "--no-collector." ++ name ≠ "--collector." ++ name := by
    intro h
    simpa using congrArg String.toList h
  unfold switched?
  cases on with
  | true =>
    rw [hon]
    split <;> simp_all
  | false =>
    rw [hoff]
    split <;> simp_all

theorem collector_notMem_letters (name : String) (on long : Bool) (cs : List Char) :
    Occurrence.switch (.collector name on) long ∉ (letters cs).1 := by
  fun_induction letters cs with
  | case1 => exact List.not_mem_nil
  | case2 => exact List.not_mem_nil
  | case3 c rest s hs os ending hrest ih =>
    rw [hrest] at ih
    intro h
    rcases List.mem_cons.mp h with h | h
    · cases h
      exact Flag.collector_ne_of_ofLetter? hs name on rfl
    · exact ih h
  | case4 => exact List.not_mem_nil
  | case5 => simp
  | case6 => simp

theorem eq_of_collector_mem_argument {long : Bool}
    (h : .switch (.collector name on) long ∈ (argument arg.toList).1) :
    arg = "--" ++ (Switch.collector name on).name := by
  unfold argument at h
  split at h
  next cs harg =>
    rcases word_cases cs with ⟨s, text, hcs, hword⟩ | ⟨s, hcs, hword⟩ | ⟨u, hcs, hword⟩ | ⟨r, hword⟩
    all_goals rw [hword] at h
    · cases List.mem_singleton.mp h
    · cases h
    · cases List.mem_singleton.mp h
      rw [← String.toList_inj, harg, hcs, String.toList_append]
      rfl
    · cases h
  next c cs harg => exact absurd h (collector_notMem_letters name on long _)
  next => cases h

theorem notMem_equals_name (h : name ∈ Catalog.names) (on : Bool) :
    '=' ∉ (Switch.collector name on).name.toList := by
  have hname : '=' ∉ name.toList := by
    revert name
    decide
  cases on <;> simp [Switch.name, hname]

theorem argument_collector (h : name ∈ Catalog.names) (on : Bool) :
    argument ("--" ++ (Switch.collector name on).name).toList =
      ([.switch (.collector name on) true], .complete) := by
  have hflag : Flag.ofName? (Switch.collector name on).name =
      some (.switch (.collector name on)) :=
    Flag.ofName?_eq_some_iff.mpr ⟨Flag.collector_mem_all h on, rfl⟩
  have hcut := (Text.cut_eq_none_iff '=').mpr (notMem_equals_name h on)
  rw [String.toList_append]
  change word (Switch.collector name on).name.toList = _
  simp [word, hcut, hflag]

/-- An argument is read as what it says about a scraper. -/
theorem switched?_argument (h : name ∈ Catalog.names) (arg : String) :
    (argument arg.toList).1.filterMap (Occurrence.switched? name) =
      (switched? name arg).toList := by
  cases harg : switched? name arg with
  | some on =>
    rw [switched?_eq_some_iff.mp harg, argument_collector h]
    simp [Occurrence.switched?]
  | none =>
    refine List.filterMap_eq_nil_iff.mpr fun o ho => ?_
    cases hsaid : o.switched? name with
    | none => rfl
    | some on =>
      unfold Occurrence.switched? at hsaid
      split at hsaid
      next other said long =>
        split at hsaid
        next heq =>
          subst heq
          rw [switched?_eq_some_iff.mpr (eq_of_collector_mem_argument ho)] at harg
          cases harg
        next => cases hsaid
      next => cases hsaid

/-- The value of a setting says nothing about scrapers. -/
theorem switched?_of_isValue (h : isValue arg = true) : switched? name arg = none := by
  cases harg : switched? name arg with
  | none => rfl
  | some on =>
    rw [switched?_eq_some_iff.mp harg] at h
    simp [isValue] at h

theorem filterMap_switched?_cons (name arg : String) (args : List String) :
    (arg :: args).filterMap (switched? name) =
      (switched? name arg).toList ++ args.filterMap (switched? name) := by
  rw [List.filterMap_cons]
  cases switched? name arg <;> rfl

theorem switched?_dashes (name : String) : switched? name "--" = none := by
  cases hdashes : switched? name "--" with
  | none => rfl
  | some on =>
    have hlength := congrArg String.length (switched?_eq_some_iff.mp hdashes)
    cases on <;> simp [Switch.name] at hlength

/-- What is read from all arguments says what they say. -/
theorem switched?_occurrences (h : name ∈ Catalog.names) {args : List String}
    (hread : (Reading.ofArguments args).refusal = none) :
    (Reading.ofArguments args).occurrences.filterMap (Occurrence.switched? name) =
      args.filterMap (switched? name) := by
  fun_induction Reading.ofArguments args with
  | case1 => rfl
  | case2 rest =>
    cases rest with
    | nil => simp [switched?_dashes]
    | cons text more => simp at hread
  | case3 arg rest hdash os hos ih =>
    have harg := switched?_argument h arg
    rw [hos] at harg
    simp only [Reading.append] at hread ⊢
    rw [List.filterMap_append, harg, ih hread, filterMap_switched?_cons]
  | case4 arg rest hdash os r hos => simp at hread
  | case5 arg hdash os s hos =>
    have harg := switched?_argument h arg
    rw [hos] at harg
    rw [List.filterMap_append, harg, filterMap_switched?_cons]
    rfl
  | case6 arg hdash os s hos text more hvalue ih =>
    have harg := switched?_argument h arg
    rw [hos] at harg
    simp only [Reading.append] at hread ⊢
    obtain ⟨hrest, hoccurrences⟩ := occurrences_await hread
    rw [hoccurrences, List.filterMap_append, harg, filterMap_switched?_cons,
      filterMap_switched?_cons, switched?_of_isValue hvalue, ← ih hrest]
    rfl
  | case7 arg hdash os s hos text more hvalue ih =>
    have harg := switched?_argument h arg
    rw [hos] at harg
    simp only [Reading.append] at hread ⊢
    obtain ⟨hrest, hoccurrences⟩ := occurrences_await hread
    rw [hoccurrences, List.filterMap_append, harg, filterMap_switched?_cons, ← ih hrest]
    rfl

end

namespace Settings

section
variable {given after : Settings} {name : String}

theorem collectors_put? {s : Setting} {text : String} (h : given.put? s text = some after) :
    after.collectors = given.collectors := by
  unfold put? at h
  cases s
  case port | cacheTtl | scrapeTimeout | connectTimeout =>
    obtain ⟨n, -, rfl⟩ := Option.map_eq_some_iff.mp h
    rfl
  all_goals
    cases h
    rfl

theorem collectors_put {s : Setting} {text : String} (h : given.put s text = .ok after) :
    after.collectors = given.collectors :=
  collectors_put? (put_eq_ok_iff.mp h)

/-- After an occurrence a scraper is switched as it says, or as before if it says nothing. -/
theorem get?_act {o : Occurrence} (h : given.act o = .ok after) :
    after.collectors.get? name = (o.switched? name).or (given.collectors.get? name) := by
  rcases act_cases h with ⟨s, text, detached, rfl, -, hput⟩ | ⟨long, rfl, rfl⟩ |
    ⟨other, on, long, rfl, -, rfl⟩
  · rw [collectors_put hput]
    rfl
  · rfl
  · by_cases hname : other = name
    · subst hname
      simp [Occurrence.switched?]
    · simp [Occurrence.switched?, hname, Table.get?_put_of_ne _ _ (Ne.symm hname)]

/-- After all occurrences a scraper is switched as the last one that names it says. -/
theorem get?_actAll {os : List Occurrence} (h : given.actAll os = .ok after) :
    after.collectors.get? name =
      (os.filterMap (Occurrence.switched? name)).getLast?.or (given.collectors.get? name) := by
  induction os generalizing given with
  | nil =>
    cases h
    rfl
  | cons o rest ih =>
    obtain ⟨next, hact, hrest⟩ := actAll_cons_eq_ok_iff.mp h
    rw [ih hrest, get?_act hact, List.filterMap_cons]
    cases o.switched? name with
    | none => rfl
    | some on =>
      simp only [Option.some_or]
      rw [List.getLast?_cons]
      cases (rest.filterMap (Occurrence.switched? name)).getLast? <;> rfl

theorem collectors_fallBack {env : Environment} {s : Setting}
    (h : given.fallBack env s = .ok after) : after.collectors = given.collectors := by
  rcases eq_or_put_of_fallBack h with rfl | ⟨text, hput⟩
  · rfl
  · exact collectors_put hput

theorem collectors_complete {env : Environment} {settings : List Setting}
    (h : given.complete env settings = .ok after) : after.collectors = given.collectors := by
  induction settings generalizing given with
  | nil =>
    cases h
    rfl
  | cons s rest ih =>
    obtain ⟨next, hnext, hrest⟩ := complete_cons_eq_ok_iff.mp h
    rw [ih hrest, collectors_fallBack hnext]

end

/-- A scraper is switched as the last of its switches among the arguments says. -/
theorem get?_collectors {env : Environment} {args : List String} {given : Settings}
    (h : ofArguments? env args = .ok given) {name : String} (hname : name ∈ Catalog.names) :
    given.collectors.get? name = lastSwitched? name args := by
  obtain ⟨hrefusal, read, hread, hcomplete⟩ := ofArguments?_eq_ok_iff.mp h
  rw [collectors_complete hcomplete, get?_actAll hread, switched?_occurrences hname hrefusal]
  simp [lastSwitched?]

theorem enabledScrapers_eq {env : Environment} {args : List String} {given : Settings}
    (h : ofArguments? env args = .ok given) :
    given.enabledScrapers =
      (catalog.filter fun e => (lastSwitched? e.name args).getD e.enabledByDefault).map
        (·.name) := by
  unfold enabledScrapers
  congr 1
  refine List.filter_congr fun e he => ?_
  rw [get?_collectors h (List.mem_map_of_mem he)]

/-- Whether a scraper runs is up to its last switch, or its default if there is none. -/
theorem mem_enabledScrapers_iff {env : Environment} {args : List String} {given : Settings}
    (h : ofArguments? env args = .ok given) {e : CatalogEntry} (he : e ∈ catalog) :
    e.name ∈ given.enabledScrapers ↔
      (lastSwitched? e.name args).getD e.enabledByDefault = true := by
  rw [enabledScrapers_eq h, List.mem_map]
  constructor
  · rintro ⟨f, hf, hname⟩
    obtain ⟨hmem, hrun⟩ := List.mem_filter.mp hf
    rwa [List.inj_on_of_nodup_map Catalog.names_nodup hmem he hname] at hrun
  · intro hrun
    exact ⟨e, List.mem_filter.mpr ⟨he, hrun⟩, rfl⟩

theorem nodup_enabledScrapers (given : Settings) : given.enabledScrapers.Nodup :=
  Catalog.names_nodup.sublist (List.filter_sublist.map _)

/-- The scrapers that run are, in the order of the catalog, those whose last switch turns them on
and those without a switch that are enabled by default.  Accepted arguments that switch a scraper
alike agree on it, whatever else they ask for. -/
theorem last_switch_decides {env : Environment} {args : List String} {given : Settings}
    (h : ofArguments? env args = .ok given) :
    given.enabledScrapers =
      (catalog.filter fun e => (lastSwitched? e.name args).getD e.enabledByDefault).map (·.name) ∧
    given.enabledScrapers.Nodup ∧
    ∀ env' args' given', ofArguments? env' args' = .ok given' → ∀ e ∈ catalog,
      args.filterMap (switched? e.name) = args'.filterMap (switched? e.name) →
        (e.name ∈ given.enabledScrapers ↔ e.name ∈ given'.enabledScrapers) := by
  refine ⟨enabledScrapers_eq h, nodup_enabledScrapers given, ?_⟩
  intro env' args' given' h' e he hsame
  rw [mem_enabledScrapers_iff h he, mem_enabledScrapers_iff h' he, lastSwitched?, hsame]
  rfl

def wavering : List String :=
  ["--collector.locks", "-v", "--no-collector.locks", "--collector.stat_user_tables", "--port=9000",
    "--collector.locks", "--no-collector.disk_usage", "--cache-ttl", "60"]

def waveringAlone : List String :=
  ["--collector.locks", "--no-collector.locks", "--collector.locks"]

theorem exists_of_isOk (env : Environment) (args : List String)
    (h : (ofArguments? env args).isOk = true) : ∃ given, ofArguments? env args = .ok given := by
  cases hgiven : ofArguments? env args with
  | ok given => exact ⟨given, rfl⟩
  | error stop =>
    rw [hgiven] at h
    cases h

theorem last_switch_decides_wavering :
    ∃ given alone, ofArguments? [] wavering = .ok given ∧
      ofArguments? [] waveringAlone = .ok alone ∧
      given.enabledScrapers = ["recovery", "locks", "stat_activity", "stat_archiver",
        "stat_bgwriter", "stat_database", "stat_replication", "wal_receiver",
        "stat_vacuum_progress", "stat_user_tables", "stat_user_indexes"] ∧
      given.enabledScrapers.Nodup ∧
      ("locks" ∈ given.enabledScrapers ↔ "locks" ∈ alone.enabledScrapers) := by
  obtain ⟨given, hgiven⟩ := exists_of_isOk [] wavering (by decide +kernel)
  obtain ⟨alone, halone⟩ := exists_of_isOk [] waveringAlone (by decide +kernel)
  obtain ⟨henabled, hnodup, hagree⟩ := last_switch_decides hgiven
  refine ⟨given, alone, hgiven, halone, ?_, hnodup, ?_⟩
  · rw [henabled]
    decide +kernel
  · exact hagree [] waveringAlone alone halone ⟨"locks", .server, true⟩ (by decide)
      (by decide +kernel)

end Settings
end PgMetrics.CommandLine
