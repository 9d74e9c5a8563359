import InterpolationLint.Command.Basic
import InterpolationLint.CommandLine.Basic
import InterpolationLint.FileTree.Collection
import InterpolationLint.Report.Listing
import InterpolationLint.Report.Record
import InterpolationLint.Report.Sarif
import InterpolationLint.Run

/-!
# The lint command

Checks the files at a path with the rules that the config and the command line leave on, and
reports the outcome in one of three formats. What is asked for is checked before anything is run.
-/

namespace InterpolationLint

inductive ReportFormat where
  | listing
  | record
  | sarif
deriving DecidableEq, Repr

def ReportFormat.ofName? : String → Option ReportFormat
  | "pretty" => some listing
  | "json" => some record
  | "sarif" => some sarif
  | _ => none

inductive LintError where
  | unknownFormat (name : String)
  | unknownLevel (name : String)
  | unreadableConfig (path : String) (cause : FileError)
  | malformedConfig (path cause : String)
  | invalidConfig (problem : ConfigProblem)
  | unknownRule (name : String)
  | unreachablePath (path : String) (cause : FileError)
  | brokenWalk (cause : WalkError)
  | noOutcome (cause : RunError)
deriving DecidableEq, Repr

def LintError.lines : LintError → List String
  | .unknownFormat name =>
    [s!"Error: invalid format {quoted name}, must be 'pretty', 'json', or 'sarif'"]
  | .unknownLevel name =>
    [s!"Error: {Severity.unknownMessage name}, must be 'error', 'warning', or 'info'"]
  | .unreadableConfig path cause => [s!"Error: failed to read config {path}: {cause.message}"]
  | .malformedConfig path cause => [s!"Error: failed to parse config {path}: {cause}"]
  | .invalidConfig problem => [s!"Error: invalid config: {problem.message}"]
  | .unknownRule name =>
    [s!"Error: unknown rule {quoted name}", s!"Run '{toolName} rules' to see available rules"]
  | .unreachablePath path cause =>
    [s!"Error: cannot access path {quoted path}: {cause.message}"]
  | .brokenWalk cause => [s!"Error: {cause.message}"]
  | .noOutcome cause => [s!"Error: {cause.message}"]

def configCandidates : List String := ["./interpcheck.yaml", "./.interpcheck.yaml"]

def defaultConfigName : String := "(defaults)"

def disableRules (rules : RuleSet) (names : List String) : Except LintError RuleSet :=
  names.foldlM (fun rules name =>
    match Rule.ofName? name with
    | some rule => .ok (rules.set rule false)
    | none => .error (.unknownRule name)) rules

namespace FileTree

def configPath? (tree : FileTree) (asked : Option String) : Option String :=
  asked.or (configCandidates.find? tree.isFile)

def readConfig (tree : FileTree) (readers : ConfigReaders) (path : Option String) :
    Except LintError Config :=
  match path with
  | none => .ok Config.default
  | some path =>
    match tree.readText path with
    | .error cause => .error (.unreadableConfig path cause)
    | .ok text => (readers.config text).mapError (.malformedConfig path)

def loadConfig (tree : FileTree) (readers : ConfigReaders) (path : Option String) :
    Except LintError Config := do
  let config ← tree.readConfig readers path
  match config.problem? readers.pattern with
  | some problem => throw (.invalidConfig problem)
  | none => return config

def filesAt (tree : FileTree) (readPattern : PatternReader) (config : Config) (place : Place) :
    Except WalkError (List String) :=
  let path := absolutePath place
  if tree.isDirectory path then tree.collect readPattern config path else .ok [path]

end FileTree

structure LintFindings where
  format : ReportFormat
  level : Severity
  configPath : Option String
  /-- There is none if there are no files. -/
  outcome : Option Outcome
deriving DecidableEq, Repr

def LintRequest.findings (request : LintRequest) (readers : ConfigReaders) (tree : FileTree) :
    Except LintError LintFindings := do
  let some format := ReportFormat.ofName? request.format
    | throw (.unknownFormat request.format)
  let some level := Severity.ofName? request.failLevel
    | throw (.unknownLevel request.failLevel)
  let configPath := tree.configPath? request.config
  let config ← tree.loadConfig readers configPath
  let rules ← disableRules config.ruleSet request.disabled
  let place ← (tree.resolve request.path).mapError (.unreachablePath request.path)
  let files ← (tree.filesAt readers.pattern config place).mapError .brokenWalk
  if files.isEmpty then return { format, level, configPath, outcome := none }
  let outcome ← (tree.run (FileTree.absolutePath place) rules files).mapError .noOutcome
  return { format, level, configPath, outcome := some outcome }

def LintRequest.report (request : LintRequest) (color : Bool) (format : ReportFormat)
    (configPath : Option String) (outcome : Outcome) : String :=
  let config := configPath.getD defaultConfigName
  match format with
  | .listing => listingReport color request.path config outcome request.showSuppressed
  | .record => recordReport request.path config outcome
  | .sarif => sarifReport outcome

def LintRequest.execute (request : LintRequest) (readers : ConfigReaders) (color : Bool)
    (tree : FileTree) : CommandResult :=
  match request.findings readers tree with
  | .error error => ⟨CommandResult.broken, "", unlines error.lines, tree⟩
  | .ok findings =>
    match findings.outcome with
    | none => ⟨CommandResult.success, "", unlines ["Warning: no files to scan"], tree⟩
    | some outcome =>
      let exitCode :=
        if outcome.hasAtLeast findings.level then CommandResult.failed else CommandResult.success
      ⟨exitCode, request.report color findings.format findings.configPath outcome, "", tree⟩

end InterpolationLint
