import InterpolationLint.Suppression.Basic

/-!
# Outcomes

What came of checking some files: violations, suppressed violations, files that could not be
scanned, and how many files there were. Outcomes merge, and can be put in order.
-/

namespace InterpolationLint

structure FileFailure where
  file : String
  message : String
  position : Option Position
deriving DecidableEq, Repr

structure Outcome where
  violations : List Violation
  suppressed : List SuppressedViolation
  failures : List FileFailure
  scanned : Nat
deriving DecidableEq, Repr

namespace Outcome

def empty : Outcome := ⟨[], [], [], 0⟩

def merge (a b : Outcome) : Outcome where
  violations := a.violations ++ b.violations
  suppressed := a.suppressed ++ b.suppressed
  failures := a.failures ++ b.failures
  scanned := a.scanned + b.scanned

def hasAtLeast (outcome : Outcome) (level : Severity) : Bool :=
  outcome.violations.any (·.severity.atLeast level)

def count (outcome : Outcome) (rule : Rule) : Nat := outcome.violations.countP (·.rule = rule)

def counts (outcome : Outcome) : List (Rule × Nat) :=
  (Rule.all.map fun rule => (rule, outcome.count rule)).filter (·.2 ≠ 0)

def violationOrder : Violation → Violation → Ordering :=
  compareLex (compareOn (·.file)) <| compareLex (compareOn (·.line)) <|
    compareLex (compareOn (·.column)) (compareOn (·.rule.rank))

def suppressedOrder : SuppressedViolation → SuppressedViolation → Ordering :=
  compareOn (·.violation.file)

def failureOrder : FileFailure → FileFailure → Ordering := compareOn (·.file)

/-- Puts each list in order. Entries that compare equal keep their order. -/
def sort (outcome : Outcome) : Outcome where
  violations := outcome.violations.mergeSort fun a b => (violationOrder a b).isLE
  suppressed := outcome.suppressed.mergeSort fun a b => (suppressedOrder a b).isLE
  failures := outcome.failures.mergeSort fun a b => (failureOrder a b).isLE
  scanned := outcome.scanned

end Outcome

end InterpolationLint
