import InterpolationLint.Diagnostic.Finding

/-!
# Diagnostics

Findings with their lines and columns, in reading order and each once.
-/

namespace InterpolationLint

structure Diagnostic where
  rule : Rule
  message : String
  severity : Severity
  location : Location
deriving DecidableEq, Repr

inductive AnalysisError where
  | malformed (node : Nat) (fault : Fault)
  | unresolved (place : OutOfText)
deriving DecidableEq, Repr

def AnalysisError.message : AnalysisError → String
  | .malformed node fault => s!"malformed interpolated string #{node}: {fault.message}"
  | .unresolved place =>
    s!"cannot resolve offset {place.offset} (source has {place.length} characters)"

namespace Diagnostic

def ofFinding (lines : LineIndex) (finding : Finding) : Except AnalysisError Diagnostic :=
  match lines.locate finding.range with
  | .error place => .error (.unresolved place)
  | .ok location =>
    .ok ⟨finding.rule, finding.rule.info.message, finding.rule.info.severity, location⟩

def order : Diagnostic → Diagnostic → Ordering :=
  compareLex (compareOn (·.location.start.line)) <|
    compareLex (compareOn (·.location.start.column)) (compareOn (·.rule.rank))

def inOrder (a b : Diagnostic) : Bool := (order a b).isLE

/-- Two diagnostics with the same rule and place say the same. -/
def subject (d : Diagnostic) : Rule × Location := (d.rule, d.location)

/-- Leaves out what was `seen`, and repeats. -/
def dropRepeats (seen : List (Rule × Location)) : List Diagnostic → List Diagnostic
  | [] => []
  | d :: rest =>
    if seen.contains d.subject then dropRepeats seen rest
    else d :: dropRepeats (d.subject :: seen) rest

/-- The diagnostics of findings, in reading order. Findings at one place of one rule keep the order
they came in, and only the first of equal ones stays. The first finding outside the text is an
error. -/
def ofFindings (lines : LineIndex) (findings : List Finding) :
    Except AnalysisError (List Diagnostic) := do
  let found ← findings.mapM (ofFinding lines)
  return dropRepeats [] (found.mergeSort inOrder)

end Diagnostic

end InterpolationLint
