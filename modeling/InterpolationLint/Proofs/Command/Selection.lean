import InterpolationLint.Command.Lint
import InterpolationLint.Config.Readers
import InterpolationLint.Proofs.Config.Switches
import InterpolationLint.Proofs.Diagnostic.Selection
import InterpolationLint.Proofs.Outcome.Files

/-!
# Runs by some of the rules

Rules are selected before a file is analysed, and its directives are matched and the outcomes merged
and sorted afterwards. Still a run by some of the rules has the entries of these rules in a run by
all. It makes no difference whether a rule is switched off in the config or on the command line.
-/

namespace InterpolationLint

/-! ## One file -/

theorem activeViolations_filter (suppressions : List Suppression) (violations : List Violation)
    (p : Violation → Bool) : activeViolations suppressions (violations.filter p) =
      (activeViolations suppressions violations).filter p := by
  simp only [activeViolations, List.filter_filter, Bool.and_comm]

/-- A violation that stays keeps the directive that covers it. -/
theorem suppressedViolations_filter (suppressions : List Suppression) (violations : List Violation)
    (p : Violation → Bool) : suppressedViolations suppressions (violations.filter p) =
      (suppressedViolations suppressions violations).filter (p ·.violation) := by
  unfold suppressedViolations
  rw [List.filter_filterMap, List.filterMap_filter]
  apply List.filterMap_congr
  intro v _
  by_cases hv : p v <;> cases suppressions.find? (·.covers v) <;> simp [hv, Option.filter]

def Outcome.select (rules : RuleSet) (outcome : Outcome) : Outcome :=
  { outcome with
    violations := outcome.violations.filter (rules.has ·.rule)
    suppressed := outcome.suppressed.filter (rules.has ·.violation.rule) }

theorem checkSource_select {file source : String} {whole : Outcome}
    (h : checkSource .all file source = .ok whole) (rules : RuleSet) :
    checkSource rules file source = .ok (whole.select rules) := by
  cases hscan : SourceTree.ofSource source with
  | error failure =>
    rw [checkSource_of_failure hscan] at h ⊢
    cases h
    rfl
  | ok tree =>
    obtain ⟨all, hall, -, hwhole⟩ := checkSource_of_tree hscan .all file
    obtain ⟨diagnostics, hsome, -, hpart⟩ := checkSource_of_tree hscan rules file
    rw [hwhole] at h
    cases h
    obtain rfl : diagnostics = all.filter (rules.has ·.rule) := by
      rw [SourceTree.analyze_eq hscan] at hall hsome
      cases hall
      cases hsome
      rw [SourceTree.findings_selected, ← Diagnostic.arranged_filter, List.filter_map]
      rfl
    have hmap : (all.filter (rules.has ·.rule)).map (Violation.ofDiagnostic file) =
        (all.map (Violation.ofDiagnostic file)).filter (rules.has ·.rule) := by
      rw [List.filter_map]
      rfl
    rw [hpart, hmap, activeViolations_filter, suppressedViolations_filter]
    rfl

/-! ## All files -/

namespace FileTree

section
variable {tree : FileTree} (base : String)

theorem outcomeAt_select {path : String} (h : tree.Readable path) (rules : RuleSet) :
    tree.outcomeAt base rules path = (tree.outcomeAt base .all path).select rules := by
  obtain ⟨source, hsource⟩ := h
  have hwhole := (checkFile_of_source base .all hsource).1
  have hpart := (checkFile_of_source base rules hsource).1
  rw [checkSource_select hwhole] at hpart
  exact (Except.ok.inj hpart).symm

theorem filter_flatMap_of {α β : Type} {xs : List α} {whole part : α → List β} {p : β → Bool}
    (h : ∀ x ∈ xs, part x = (whole x).filter p) :
    xs.flatMap part = (xs.flatMap whole).filter p := by
  rw [List.filter_flatMap]
  exact List.flatMap_congr h

theorem run_select {paths : List String} (h : ∀ path ∈ paths, tree.Readable path) {whole : Outcome}
    (hwhole : tree.run base .all paths = .ok whole) (rules : RuleSet) :
    tree.run base rules paths = .ok (whole.select rules) := by
  rw [run_eq base .all h] at hwhole
  cases hwhole
  have hat := fun path hpath => outcomeAt_select base (h path hpath) rules
  have hviolations := filter_flatMap_of fun path hpath =>
    congrArg Outcome.violations (hat path hpath)
  have hsuppressed := filter_flatMap_of fun path hpath =>
    congrArg Outcome.suppressed (hat path hpath)
  have hfailures := List.flatMap_congr fun path hpath =>
    congrArg Outcome.failures (hat path hpath)
  rw [run_eq base rules h, hviolations, hsuppressed, hfailures]
  simp only [Outcome.sort_eq, Outcome.select, filter_sortBy]

end

end FileTree

/-! ## Rules that are switched off -/

theorem disableRules_eq (rules : RuleSet) {names : List String}
    (h : ∀ name ∈ names, (Rule.ofName? name).isSome) :
    disableRules rules names =
      .ok (names.foldl (fun rules name => rules.switch name false) rules) := by
  induction names generalizing rules with
  | nil => rfl
  | cons name names ih =>
    obtain ⟨rule, hrule⟩ := Option.isSome_iff_exists.mp (h name List.mem_cons_self)
    have hswitch : rules.switch name false = rules.set rule false := by
      rw [RuleSet.switch, hrule]
    have hrest := ih (rules.set rule false) fun n hn => h n (List.mem_cons_of_mem name hn)
    rw [List.foldl_cons, hswitch, ← hrest]
    unfold disableRules
    rw [List.foldlM_cons, hrule]
    rfl

theorem RuleSet.has_foldl_off (names : List String) (rules : RuleSet) (rule : Rule) :
    (names.foldl (fun rules name => rules.switch name false) rules).has rule =
      if rule.name ∈ names then false else rules.has rule := by
  induction names generalizing rules with
  | nil => simp
  | cons name names ih =>
    rw [List.foldl_cons, ih, has_switch]
    by_cases hname : rule.name = name <;> simp [hname]

theorem disableRules_ruleSet (config : Config) {names : List String}
    (h : ∀ name ∈ names, (Rule.ofName? name).isSome) :
    disableRules config.ruleSet names = .ok (config.disable names).ruleSet := by
  rw [disableRules_eq config.ruleSet h]
  apply congrArg Except.ok
  apply RuleSet.eq_of_has
  intro rule
  rw [RuleSet.has_foldl_off, Config.has_ruleSet, Config.has_ruleSet, Config.get?_disable]
  split <;> rfl

theorem Config.checks_disable (readPattern : PatternReader) (config : Config)
    (names : List String) (root : String) :
    (config.disable names).checks readPattern root = config.checks readPattern root := by
  funext path
  rw [checks, checks, skips_disable]

theorem FileTree.filesAt_disable (tree : FileTree) (readPattern : PatternReader) (config : Config)
    (names : List String) (place : Place) :
    tree.filesAt readPattern (config.disable names) place =
      tree.filesAt readPattern config place := by
  unfold filesAt collect
  simp only [Config.checks_disable]

/-- Switching off rules on the command line comes to the same as switching them off in the
config. -/
theorem LintRequest.outcome_disable {request : LintRequest} {readers : ConfigReaders}
    {tree : FileTree} {config : Config} {path : String}
    (hknown : ∀ name ∈ request.disabled, (Rule.ofName? name).isSome)
    (hload : tree.loadConfig readers (tree.configPath? request.config) = .ok config)
    (hother : tree.loadConfig readers (some path) = .ok (config.disable request.disabled)) :
    (request.findings readers tree).map (·.outcome) =
      (LintRequest.findings { request with config := some path, disabled := [] } readers tree).map
        (·.outcome) := by
  have hpath : tree.configPath? (some path) = some path := rfl
  have hnone : disableRules (config.disable request.disabled).ruleSet [] =
      .ok (config.disable request.disabled).ruleSet := rfl
  unfold LintRequest.findings
  cases ReportFormat.ofName? request.format with
  | none => rfl
  | some format =>
    cases Severity.ofName? request.failLevel with
    | none => rfl
    | some level =>
      dsimp only
      rw [hload, hpath, hother]
      simp only [bind, Except.bind, disableRules_ruleSet config hknown, hnone,
        FileTree.filesAt_disable]
      cases tree.resolve request.path with
      | error cause => rfl
      | ok place =>
        dsimp only [Except.mapError]
        cases tree.filesAt readers.pattern config place with
        | error cause => rfl
        | ok files =>
          dsimp only
          split
          · rfl
          · cases tree.run (FileTree.absolutePath place) (config.disable request.disabled).ruleSet
              files <;> rfl

/-- Selecting rules is filtering. A run by some of the rules has the same failures as a run by all
and counts as many files, and of the other entries it has those of its rules. Names of rules on the
command line select the same rules as the config with these names switched off, and lead to the same
outcome. -/
theorem FileTree.run_selected (readers : ConfigReaders) (tree : FileTree) (base : String) :
    (∀ paths : List String, (∀ path ∈ paths, tree.Readable path) →
      ∃ whole, tree.run base .all paths = .ok whole ∧
        ∀ rules, tree.run base rules paths = .ok (whole.select rules)) ∧
    (∀ (config : Config) (names : List String), config.problem? readers.pattern = none →
      (∀ name ∈ names, (Rule.ofName? name).isSome) →
      (config.disable names).problem? readers.pattern = none ∧
      ∃ rules, disableRules config.ruleSet names = .ok rules ∧
        rules = (config.disable names).ruleSet ∧
        ∀ place, (tree.filesAt readers.pattern config place).map
            (tree.run (absolutePath place) rules) =
          (tree.filesAt readers.pattern (config.disable names) place).map
            (tree.run (absolutePath place) (config.disable names).ruleSet)) ∧
    ∀ (request : LintRequest) (config : Config) (path : String),
      (∀ name ∈ request.disabled, (Rule.ofName? name).isSome) →
      tree.loadConfig readers (tree.configPath? request.config) = .ok config →
      tree.loadConfig readers (some path) = .ok (config.disable request.disabled) →
      (request.findings readers tree).map (·.outcome) =
        (LintRequest.findings { request with config := some path, disabled := [] } readers
          tree).map (·.outcome) := by
  refine ⟨?_, ?_, ?_⟩
  · intro paths hreadable
    have hwhole := FileTree.run_eq base .all hreadable
    exact ⟨_, hwhole, FileTree.run_select base hreadable hwhole⟩
  · intro config names hvalid hknown
    refine ⟨?_, _, disableRules_ruleSet config hknown, rfl, ?_⟩
    · rw [Config.problem?_disable readers.pattern config hknown, hvalid]
    · intro place
      rw [tree.filesAt_disable readers.pattern config names place]
  · intro request config path hknown hload hother
    exact request.outcome_disable hknown hload hother

/-- A file with findings of both rules and a directive for one of them, which the command line
switches off twice and a config file once. -/
theorem FileTree.run_selected_by_two_ways : ∃ (tree : FileTree) (whole : Outcome),
    tree.readText "/a.cs" = .ok "F($\"$\x7ba\x7d\", $\"\"); // interpcheck:ignore DollarBrace" ∧
    tree.readText "/c.yaml" = .ok "rules:\n  DollarBrace: false\n" ∧
    tree.run "/" .all ["/a.cs"] = .ok whole ∧
    tree.run "/" ⟨false, true⟩ ["/a.cs"] = .ok (whole.select ⟨false, true⟩) ∧
    disableRules Config.default.ruleSet ["DollarBrace", "DollarBrace"] =
      .ok (Config.default.disable ["DollarBrace", "DollarBrace"]).ruleSet ∧
    (LintRequest.findings ⟨"/", none, "json", false, "info", ["DollarBrace", "DollarBrace"]⟩
      .standard tree).map (·.outcome) =
      (LintRequest.findings ⟨"/", some "/c.yaml", "json", false, "info", []⟩ .standard tree).map
        (·.outcome) := by
  obtain ⟨tree, hsource, hyaml, hdefault⟩ : ∃ tree : FileTree,
      tree.readText "/a.cs" = .ok "F($\"$\x7ba\x7d\", $\"\"); // interpcheck:ignore DollarBrace" ∧
      tree.readText "/c.yaml" = .ok "rules:\n  DollarBrace: false\n" ∧
      tree.loadConfig .standard (tree.configPath? none) = .ok Config.default :=
    ⟨((FileTree.bare []).put ["a.cs"]
        (.file "F($\"$\x7ba\x7d\", $\"\"); // interpcheck:ignore DollarBrace".toUTF8)).put
      ["c.yaml"] (.file "rules:\n  DollarBrace: false\n".toUTF8), rfl, rfl, rfl⟩
  have hconfig : tree.loadConfig .standard (some "/c.yaml") =
      .ok (Config.default.disable ["DollarBrace", "DollarBrace"]) := by
    have hmap : (ConfigReaders.standard.config "rules:\n  DollarBrace: false\n").toOption.map id =
        some (Config.default.disable ["DollarBrace", "DollarBrace"]) := by decide +kernel
    obtain ⟨config, hof, heq⟩ := exists_ok_of_map hmap
    have hvalid : config.problem? globReader = none := congrArg (Config.problem? globReader) heq
    rw [← heq]
    simp only [loadConfig, readConfig, hyaml, hof, Except.mapError, bind, Except.bind]
    rw [show ConfigReaders.standard.pattern = globReader from rfl, hvalid]
    rfl
  have hreadable : ∀ path ∈ ["/a.cs"], tree.Readable path := by
    intro path hpath
    rw [List.mem_singleton.mp hpath]
    exact ⟨_, hsource⟩
  have hknown : ∀ name ∈ ["DollarBrace", "DollarBrace"], (Rule.ofName? name).isSome := by decide
  obtain ⟨hruns, hconfigs, hlint⟩ := FileTree.run_selected .standard tree "/"
  obtain ⟨whole, hwhole, hpart⟩ := hruns ["/a.cs"] hreadable
  obtain ⟨-, _, hrules, rfl, -⟩ := hconfigs Config.default _ rfl hknown
  exact ⟨tree, whole, hsource, hyaml, hwhole, hpart ⟨false, true⟩, hrules,
    hlint ⟨"/", none, "json", false, "info", ["DollarBrace", "DollarBrace"]⟩ _ "/c.yaml" hknown
      hdefault hconfig⟩

end InterpolationLint
