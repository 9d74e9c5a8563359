import InterpolationLint.Analysis
import InterpolationLint.FileTree.Access
import InterpolationLint.Outcome.Basic
import InterpolationLint.Scan.Items

/-!
# Runs over files

Each file is read, scanned, analysed and matched with its suppressions, independently of the
others. A file that cannot be scanned is part of the outcome; one that cannot be read ends the run.
-/

namespace InterpolationLint

inductive RunError where
  | unreadable (file : String) (cause : FileError)
  | notAnalysed (file : String) (cause : AnalysisError)
deriving DecidableEq, Repr

def RunError.message : RunError → String
  | .unreadable file cause => s!"failed to read {file}: {cause.message}"
  | .notAnalysed file cause => s!"internal error while analyzing {file}: {cause.message}"

/-- A path as reports show it: behind the base directory, or the bare name of the base itself. -/
def shownPath (base path : String) : String :=
  if Path.parts path = Path.parts base then (Path.fileName? path).getD path
  else
    match Path.relativeTo? path base with
    | some relative =>
      String.ofList (relative.toList.map fun c => if c = '\\' then '/' else c)
    | none => path

def checkSource (rules : RuleSet) (file source : String) : Except AnalysisError Outcome :=
  match SourceTree.ofSource source with
  | .error failure =>
    let position := ((LineIndex.ofText source).position failure.offset).toOption
    .ok { Outcome.empty with failures := [⟨file, failure.message, position⟩], scanned := 1 }
  | .ok tree => do
    let diagnostics ← tree.analyze rules
    let violations := diagnostics.map fun d => { d with file : Violation }
    let suppressions := Suppression.ofSource file source
    return {
      violations := activeViolations suppressions violations
      suppressed := suppressedViolations suppressions violations
      failures := []
      scanned := 1 }

namespace FileTree

def checkFile (tree : FileTree) (base : String) (rules : RuleSet) (path : String) :
    Except RunError Outcome :=
  let file := shownPath base path
  match tree.readText path with
  | .error cause => .error (.unreadable file cause)
  | .ok source => (checkSource rules file source).mapError (.notAnalysed file)

/-- The outcome for all files, in order. Of several errors the one of the first file counts. -/
def run (tree : FileTree) (base : String) (rules : RuleSet) (paths : List String) :
    Except RunError Outcome := do
  let outcomes ← paths.mapM (tree.checkFile base rules)
  return (outcomes.foldl Outcome.merge Outcome.empty).sort

end FileTree

end InterpolationLint
