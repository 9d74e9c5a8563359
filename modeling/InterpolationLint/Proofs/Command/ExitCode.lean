import InterpolationLint.Command.Execute
import InterpolationLint.Proofs.Command.Selection
import InterpolationLint.Proofs.FileTree.Collection
import InterpolationLint.Proofs.Outcome.Accounting

/-!
# Exit codes

A lint request fails the build if and only if everything it asks for is in order, files are there and
can be read, and some violation counts at its level. All violations are warnings, so that a request
at the level of errors never fails. How the outcome is reported makes no difference.
-/

namespace InterpolationLint

/-! ## Violations are warnings -/

theorem Rule.severity_eq (rule : Rule) : rule.info.severity = .warning := by
  cases rule <;> rfl

theorem SourceTree.severity_of_analyze {source : String} {tree : SourceTree}
    (h : SourceTree.ofSource source = .ok tree) {rules : RuleSet} {diagnostics : List Diagnostic}
    (hanalyze : tree.analyze rules = .ok diagnostics) :
    ∀ d ∈ diagnostics, d.severity = .warning := by
  rw [SourceTree.analyze_eq h] at hanalyze
  cases hanalyze
  intro d hd
  have hperm := (Diagnostic.arranged_of_distinct (SourceTree.located_distinct h rules)).1
  obtain ⟨finding, -, rfl⟩ := List.mem_map.mp (hperm.mem_iff.mp hd)
  exact Rule.severity_eq finding.rule

theorem checkSource_severity {rules : RuleSet} {file source : String} {outcome : Outcome}
    (h : checkSource rules file source = .ok outcome) :
    ∀ v ∈ outcome.violations, v.severity = .warning := by
  cases hscan : SourceTree.ofSource source with
  | error failure =>
    rw [checkSource_of_failure hscan] at h
    cases h
    nofun
  | ok tree =>
    obtain ⟨diagnostics, hanalyze, -, hcheck⟩ := checkSource_of_tree hscan rules file
    rw [hcheck] at h
    cases h
    intro v hv
    obtain ⟨d, hd, rfl⟩ := List.mem_map.mp (List.mem_filter.mp hv).1
    exact SourceTree.severity_of_analyze hscan hanalyze d hd

/-! ## Runs -/

namespace FileTree

variable {tree : FileTree} {base : String} {rules : RuleSet} {paths : List String}
  {outcome : Outcome} (h : tree.run base rules paths = .ok outcome)
include h

theorem readable_of_run : ∀ path ∈ paths, tree.Readable path := by
  intro path hpath
  obtain ⟨outcomes, houtcomes, -⟩ := bind_eq_ok h
  obtain ⟨one, -, hone⟩ := exists_of_mapM_eq_ok houtcomes path hpath
  unfold checkFile at hone
  cases hread : tree.readText path with
  | error cause => simp [hread] at hone
  | ok source => exact ⟨source, hread⟩

theorem run_severity : ∀ v ∈ outcome.violations, v.severity = .warning := by
  intro v hv
  have hreadable := readable_of_run h
  obtain ⟨path, hpath, hmem⟩ := (run_entries hreadable h).1 v hv
  obtain ⟨source, hsource⟩ := hreadable path hpath
  exact checkSource_severity (checkFile_of_source base rules hsource).1 v hmem

/-- Every violation counts at the levels of warnings and of notes, and none at that of errors. -/
theorem hasAtLeast_run_iff (level : Severity) :
    outcome.hasAtLeast level = true ↔
      (level = .warning ∨ level = .info) ∧ outcome.violations ≠ [] := by
  have hseverity := run_severity h
  have hcounts : (Severity.atLeast .warning level = true) ↔ level = .warning ∨ level = .info := by
    cases level <;> decide
  rw [← hcounts, Outcome.hasAtLeast, List.any_eq_true]
  constructor
  · rintro ⟨v, hv, hlevel⟩
    rw [hseverity v hv] at hlevel
    exact ⟨hlevel, List.ne_nil_of_mem hv⟩
  · rintro ⟨hlevel, hne⟩
    obtain ⟨v, hv⟩ := List.exists_mem_of_ne_nil _ hne
    exact ⟨v, hv, by rw [hseverity v hv]; exact hlevel⟩

end FileTree

/-- A directory that cannot be read ends the walk over it. -/
theorem FileTree.filesAt_of_refused {tree : FileTree} {place : Place} {cause : FileError}
    (hplace : tree.resolve (absolutePath place) = .ok place)
    (hdirectory : tree.hasDirectory place = true) (h : tree.refusal? .read place = some cause)
    (readPattern : PatternReader) (config : Config) :
    tree.filesAt readPattern config place = .error (.refused (absolutePath place) cause) := by
  have hthere : tree.isDirectory (absolutePath place) = true := by
    unfold isDirectory entryAt?
    rw [hplace]
    exact hdirectory
  have hwalk : tree.walk [(place, absolutePath place)] place (absolutePath place) =
      .error (.refused (absolutePath place) cause) := by
    rw [walk, permit, h]
    rfl
  unfold filesAt
  dsimp only
  rw [if_pos hthere, collect_eq hplace hdirectory, hwalk]
  rfl

/-! ## What a request asks for -/

namespace LintRequest

/-- The config of a request: as the file reads that it names or that is found, or the default one if
there is no file. -/
inductive Configured (request : LintRequest) (readers : ConfigReaders) (tree : FileTree) :
    Config → Prop
  | file {path text config} : tree.configPath? request.config = some path →
      tree.readText path = .ok text → readers.config text = .ok config →
      Configured request readers tree config
  | default : tree.configPath? request.config = none →
      Configured request readers tree Config.default

/-- Everything that a request asks for is in order, the walk over the directory ends well, and there
are files, which can be read. -/
structure Accepted (request : LintRequest) (readers : ConfigReaders) (tree : FileTree)
    (level : Severity) (config : Config) (place : Place) (files : List String) : Prop where
  format : request.format ∈ ["pretty", "json", "sarif"]
  level : Severity.ofName? request.failLevel = some level
  configured : request.Configured readers tree config
  valid : config.problem? readers.pattern = none
  known : ∀ name ∈ request.disabled, (Rule.ofName? name).isSome
  path : tree.resolve request.path = .ok place
  collected : tree.filesAt readers.pattern config place = .ok files
  some_file : files ≠ []
  readable : ∀ path ∈ files, tree.Readable path

theorem isSome_ofName?_iff (name : String) :
    (ReportFormat.ofName? name).isSome ↔ name ∈ ["pretty", "json", "sarif"] := by
  unfold ReportFormat.ofName?
  split <;> simp_all

theorem known_of_disableRules {rules rules' : RuleSet} {names : List String}
    (h : disableRules rules names = .ok rules') :
    ∀ name ∈ names, (Rule.ofName? name).isSome := by
  induction names generalizing rules with
  | nil => nofun
  | cons name names ih =>
    unfold disableRules at h
    rw [List.foldlM_cons] at h
    obtain ⟨switched, hswitched, hrest⟩ := bind_eq_ok h
    cases hname : Rule.ofName? name with
    | none => simp [hname] at hswitched
    | some rule => exact List.forall_mem_cons.mpr ⟨by simp [hname], ih hrest⟩

section
variable {request : LintRequest} {readers : ConfigReaders} {tree : FileTree} {config : Config}

theorem configured_iff : request.Configured readers tree config ↔
    tree.readConfig readers (tree.configPath? request.config) = .ok config := by
  constructor
  · intro h
    cases h with
    | file hpath htext hread => simp [FileTree.readConfig, hpath, htext, hread, Except.mapError]
    | default hpath => simp [FileTree.readConfig, hpath]
  · intro h
    cases hpath : tree.configPath? request.config with
    | none =>
      rw [hpath] at h
      cases h
      exact .default hpath
    | some path =>
      cases htext : tree.readText path with
      | error cause => simp [FileTree.readConfig, hpath, htext] at h
      | ok text =>
        simp only [FileTree.readConfig, hpath, htext] at h
        exact .file hpath htext (mapError_eq_ok_iff.mp h)

theorem loadConfig_eq_ok_iff :
    tree.loadConfig readers (tree.configPath? request.config) = .ok config ↔
      request.Configured readers tree config ∧ config.problem? readers.pattern = none := by
  rw [configured_iff]
  unfold FileTree.loadConfig
  constructor
  · intro h
    obtain ⟨found, hread, h⟩ := bind_eq_ok h
    split at h
    · cases h
    · cases h
      exact ⟨hread, ‹_›⟩
  · rintro ⟨hread, hvalid⟩
    simp only [hread, hvalid, bind, Except.bind]
    rfl

/-- Where all that comes before the walk is in order, a request comes to what its files come to. -/
theorem findings_eq_of_place {format : ReportFormat} {level : Severity} {place : Place}
    (hformat : ReportFormat.ofName? request.format = some format)
    (hlevel : Severity.ofName? request.failLevel = some level)
    (hload : tree.loadConfig readers (tree.configPath? request.config) = .ok config)
    (hknown : ∀ name ∈ request.disabled, (Rule.ofName? name).isSome)
    (hplace : tree.resolve request.path = .ok place) :
    request.findings readers tree = (do
      let files ← (tree.filesAt readers.pattern config place).mapError .brokenWalk
      if files.isEmpty then return ⟨format, level, tree.configPath? request.config, none⟩
      let outcome ← (tree.run (FileTree.absolutePath place)
        (config.disable request.disabled).ruleSet files).mapError .noOutcome
      return ⟨format, level, tree.configPath? request.config, some outcome⟩) := by
  have hrules := disableRules_ruleSet config hknown
  unfold LintRequest.findings
  simp only [hformat, hlevel, hload, hrules, hplace, bind, Except.bind, Except.mapError]

/-- A request that is accepted has an outcome. -/
theorem Accepted.findings_eq {level : Severity} {place : Place} {files : List String}
    (h : request.Accepted readers tree level config place files) : ∃ format outcome,
      tree.run (FileTree.absolutePath place) (config.disable request.disabled).ruleSet files =
        .ok outcome ∧
      request.findings readers tree =
        .ok ⟨format, level, tree.configPath? request.config, some outcome⟩ := by
  obtain ⟨format, hformat⟩ := Option.isSome_iff_exists.mp ((isSome_ofName?_iff _).mpr h.format)
  have hload := loadConfig_eq_ok_iff.mpr ⟨h.configured, h.valid⟩
  have hrun := FileTree.run_eq (FileTree.absolutePath place)
    (config.disable request.disabled).ruleSet h.readable
  refine ⟨format, _, hrun, ?_⟩
  rw [findings_eq_of_place hformat h.level hload h.known h.path, h.collected]
  simp only [hrun, bind, Except.bind, Except.mapError]
  rw [if_neg (by simpa using h.some_file)]
  rfl

theorem accepted_of_findings {findings : LintFindings} {outcome : Outcome}
    (h : request.findings readers tree = .ok findings)
    (houtcome : findings.outcome = some outcome) :
    ∃ config place files, request.Accepted readers tree findings.level config place files ∧
      tree.run (FileTree.absolutePath place) (config.disable request.disabled).ruleSet files =
        .ok outcome := by
  unfold LintRequest.findings at h
  split at h
  · rename_i format hformat
    split at h
    · rename_i level hlevel
      obtain ⟨config, hload, h⟩ := bind_eq_ok h
      obtain ⟨rules, hrules, h⟩ := bind_eq_ok h
      obtain ⟨place, hplace, h⟩ := bind_eq_ok h
      obtain ⟨files, hcollected, h⟩ := bind_eq_ok h
      have hknown := known_of_disableRules hrules
      obtain ⟨hconfigured, hvalid⟩ := loadConfig_eq_ok_iff.mp hload
      rw [disableRules_ruleSet config hknown] at hrules
      cases hrules
      by_cases hfiles : files = []
      · rw [if_pos (by simpa using hfiles)] at h
        cases h
        cases houtcome
      · rw [if_neg (by simpa using hfiles)] at h
        obtain ⟨found, hrun, h⟩ := bind_eq_ok h
        cases h
        cases houtcome
        have hplace := mapError_eq_ok_iff.mp hplace
        have hcollected := mapError_eq_ok_iff.mp hcollected
        have hrun := mapError_eq_ok_iff.mp hrun
        refine ⟨config, place, files, ⟨?_, hlevel, hconfigured, hvalid, hknown, hplace, hcollected,
          hfiles, FileTree.readable_of_run hrun⟩, hrun⟩
        exact (isSome_ofName?_iff _).mp (by simp [hformat])
    · cases h
  · cases h

/-! ## Results -/

def exitCodeOf : Except LintError LintFindings → Nat
  | .error _ => CommandResult.broken
  | .ok ⟨_, _, _, none⟩ => CommandResult.success
  | .ok ⟨_, level, _, some outcome⟩ =>
    if outcome.hasAtLeast level then CommandResult.failed else CommandResult.success

theorem exitCode_eq (request : LintRequest) (readers : ConfigReaders) (color : Bool)
    (tree : FileTree) :
    (request.execute readers color tree).exitCode = exitCodeOf (request.findings readers tree) := by
  unfold LintRequest.execute
  match request.findings readers tree with
  | .error error => rfl
  | .ok ⟨_, _, _, none⟩ => rfl
  | .ok ⟨_, _, _, some outcome⟩ => rfl

theorem exitCodeOf_eq_one_iff {findings? : Except LintError LintFindings} :
    exitCodeOf findings? = 1 ↔ ∃ findings outcome, findings? = .ok findings ∧
      findings.outcome = some outcome ∧ outcome.hasAtLeast findings.level = true := by
  match findings? with
  | .error error => simp [exitCodeOf, CommandResult.broken]
  | .ok ⟨_, _, _, none⟩ => simp [exitCodeOf, CommandResult.success]
  | .ok ⟨_, level, _, some outcome⟩ =>
    by_cases hlevel : outcome.hasAtLeast level = true <;>
      simp [exitCodeOf, hlevel, CommandResult.success, CommandResult.failed]

theorem output_of_broken {color : Bool} (h : (request.execute readers color tree).exitCode = 2) :
    (request.execute readers color tree).output = "" := by
  rw [exitCode_eq] at h
  unfold LintRequest.execute
  match hfindings : request.findings readers tree with
  | .error error => rfl
  | .ok ⟨_, _, _, none⟩ => rfl
  | .ok ⟨_, level, _, some outcome⟩ =>
    rw [hfindings] at h
    by_cases hlevel : outcome.hasAtLeast level = true <;>
      simp [exitCodeOf, hlevel, CommandResult.success, CommandResult.failed] at h

/-- The format is looked at in the report only. -/
theorem findings_format {format format' : ReportFormat} {name : String}
    (h : ReportFormat.ofName? request.format = some format)
    (h' : ReportFormat.ofName? name = some format') :
    LintRequest.findings { request with format := name } readers tree =
      (request.findings readers tree).map ({ · with format := format' }) := by
  unfold LintRequest.findings
  simp only [h, h']
  cases Severity.ofName? request.failLevel with
  | none => rfl
  | some level =>
    cases tree.loadConfig readers (tree.configPath? request.config) with
    | error error => rfl
    | ok config =>
      simp only [bind, Except.bind]
      cases disableRules config.ruleSet request.disabled with
      | error error => rfl
      | ok rules =>
        cases tree.resolve request.path with
        | error error => rfl
        | ok place =>
          dsimp only [Except.mapError]
          cases tree.filesAt readers.pattern config place with
          | error error => rfl
          | ok files =>
            dsimp only
            split
            · rfl
            · cases tree.run (FileTree.absolutePath place) rules files <;> rfl

theorem exitCode_format (color : Bool) {name : String}
    (h : request.format ∈ ["pretty", "json", "sarif"]) (h' : name ∈ ["pretty", "json", "sarif"]) :
    (LintRequest.execute { request with format := name } readers color tree).exitCode =
      (request.execute readers color tree).exitCode := by
  obtain ⟨format, hformat⟩ := Option.isSome_iff_exists.mp ((isSome_ofName?_iff _).mpr h)
  obtain ⟨format', hformat'⟩ := Option.isSome_iff_exists.mp ((isSome_ofName?_iff _).mpr h')
  rw [exitCode_eq, exitCode_eq, findings_format hformat hformat']
  match request.findings readers tree with
  | .error error => rfl
  | .ok ⟨_, _, _, none⟩ => rfl
  | .ok ⟨_, _, _, some outcome⟩ => rfl

end

end LintRequest

/-- A lint request has exit code 1 if and only if all that it asks for is in order, the walk over the
directory ends well, the files that it collects can be read, and the run has a violation that is not
suppressed, at a level of warnings or below. Nothing is written to the output with exit code 2, and
the exit code does not depend on the report. -/
theorem Command.execute_lint_exitCode (request : LintRequest) (readers : ConfigReaders)
    (color : Bool) (tree : FileTree) :
    (((Command.lint request).execute readers color tree).exitCode = 1 ↔
      ∃ level config place files outcome,
        request.Accepted readers tree level config place files ∧
        (level = .warning ∨ level = .info) ∧
        tree.run (FileTree.absolutePath place) (config.disable request.disabled).ruleSet files =
          .ok outcome ∧ outcome.violations ≠ []) ∧
    (∀ base rules paths outcome, tree.run base rules paths = .ok outcome →
      ∀ v ∈ outcome.violations, v.severity = .warning) ∧
    (((Command.lint request).execute readers color tree).exitCode = 2 →
      ((Command.lint request).execute readers color tree).output = "") ∧
    (∀ format, request.format ∈ ["pretty", "json", "sarif"] →
      format ∈ ["pretty", "json", "sarif"] →
      ((Command.lint { request with format }).execute readers color tree).exitCode =
        ((Command.lint request).execute readers color tree).exitCode) ∧
    ∀ showSuppressed,
      ((Command.lint { request with showSuppressed }).execute readers color tree).exitCode =
        ((Command.lint request).execute readers color tree).exitCode := by
  refine ⟨?_, fun base rules paths outcome => FileTree.run_severity,
    LintRequest.output_of_broken, fun format => LintRequest.exitCode_format color, ?_⟩
  · show (request.execute readers color tree).exitCode = 1 ↔ _
    rw [LintRequest.exitCode_eq, LintRequest.exitCodeOf_eq_one_iff]
    constructor
    · rintro ⟨findings, outcome, hfindings, houtcome, hlevel⟩
      obtain ⟨config, place, files, haccepted, hrun⟩ :=
        LintRequest.accepted_of_findings hfindings houtcome
      obtain ⟨hcounts, hne⟩ := (FileTree.hasAtLeast_run_iff hrun findings.level).mp hlevel
      exact ⟨findings.level, config, place, files, outcome, haccepted, hcounts, hrun, hne⟩
    · rintro ⟨level, config, place, files, outcome, haccepted, hcounts, hrun, hne⟩
      obtain ⟨format, found, hfound, hfindings⟩ := haccepted.findings_eq
      obtain rfl := Except.ok.inj (hrun.symm.trans hfound)
      exact ⟨_, outcome, hfindings, rfl, (FileTree.hasAtLeast_run_iff hrun level).mpr ⟨hcounts, hne⟩⟩
  · intro showSuppressed
    show (LintRequest.execute _ readers color tree).exitCode =
      (request.execute readers color tree).exitCode
    rw [LintRequest.exitCode_eq, LintRequest.exitCode_eq]
    rfl

/-- A file with a violation: at two levels, in another format, and beside a directory that cannot be
read. -/
theorem Command.execute_lint_one_file : ∃ tree : FileTree,
    tree.readText "/a.cs" = .ok "F($\"\");" ∧
    ((Command.lint ⟨"/a.cs", none, "json", false, "Info", []⟩).execute .standard false
      tree).exitCode = 1 ∧
    ((Command.lint ⟨"/a.cs", none, "sarif", true, "Info", []⟩).execute .standard false
      tree).exitCode = 1 ∧
    ((Command.lint ⟨"/a.cs", none, "json", false, "error", []⟩).execute .standard false
      tree).exitCode ≠ 1 ∧
    ((Command.lint ⟨"/b", none, "json", false, "info", []⟩).execute .standard false
      tree).exitCode = 2 ∧
    ((Command.lint ⟨"/b", none, "json", false, "info", []⟩).execute .standard false
      tree).output = "" := by
  obtain ⟨tree, htree⟩ : ∃ tree : FileTree,
    tree = (((FileTree.bare []).put ["a.cs"] (.file "F($\"\");".toUTF8)).put ["b"]
      .directory).refuse .read ["b"] .denied := ⟨_, rfl⟩
  have hsource : tree.readText "/a.cs" = .ok "F($\"\");" := by
    rw [htree]
    rfl
  have haccepted : (LintRequest.mk "/a.cs" none "json" false "Info" []).Accepted .standard tree
      .info Config.default ["a.cs"] ["/a.cs"] := by
    subst htree
    refine ⟨by decide, rfl, .default rfl, rfl, nofun, rfl, rfl, by decide, ?_⟩
    intro path hpath
    rw [List.mem_singleton.mp hpath]
    exact ⟨_, hsource⟩
  have hcount : (tree.run "/a.cs" .all ["/a.cs"]).toOption.map (·.violations.length) = some 1 := by
    subst htree
    decide +kernel
  obtain ⟨outcome, hrun, hlength⟩ := exists_ok_of_map hcount
  have hjson := Command.execute_lint_exitCode ⟨"/a.cs", none, "json", false, "Info", []⟩
    .standard false tree
  have hsarif := Command.execute_lint_exitCode ⟨"/a.cs", none, "sarif", false, "Info", []⟩
    .standard false tree
  have herrors := Command.execute_lint_exitCode ⟨"/a.cs", none, "json", false, "error", []⟩
    .standard false tree
  have hclosed := Command.execute_lint_exitCode ⟨"/b", none, "json", false, "info", []⟩
    .standard false tree
  have hfails := hjson.1.mpr ⟨_, _, _, _, outcome, haccepted, .inr rfl, hrun,
    List.ne_nil_of_length_eq_add_one hlength⟩
  have hbroken : ((Command.lint ⟨"/b", none, "json", false, "info", []⟩).execute .standard false
      tree).exitCode = 2 := by
    have hload : tree.loadConfig .standard (tree.configPath? none) = .ok Config.default := by
      subst htree
      rfl
    have hplace : tree.resolve "/b" = .ok ["b"] := by
      subst htree
      rfl
    have hdirectory : tree.hasDirectory ["b"] = true := by
      subst htree
      rfl
    have hrefused : tree.refusal? .read ["b"] = some .denied := by
      subst htree
      rfl
    have hfindings := @LintRequest.findings_eq_of_place ⟨"/b", none, "json", false, "info", []⟩
      .standard tree Config.default .record .info ["b"] rfl rfl hload (by simp) hplace
    rw [FileTree.filesAt_of_refused hplace hdirectory hrefused] at hfindings
    exact (LintRequest.exitCode_eq _ _ _ _).trans (by rw [hfindings]; rfl)
  refine ⟨tree, hsource, hfails, ?_, ?_, hbroken, hclosed.2.2.1 hbroken⟩
  · rw [hsarif.2.2.2.2 true, hjson.2.2.2.1 "sarif" (by decide) (by decide), hfails]
  · intro hone
    obtain ⟨level, _, _, _, _, herror, hlevel, -⟩ := herrors.1.mp hone
    obtain rfl : level = .error := Option.some.inj (herror.level.symm.trans rfl)
    simp at hlevel

end InterpolationLint
