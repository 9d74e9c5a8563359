import InterpolationLint.Diagnostic.Basic

/-!
# Violations

A diagnostic together with the name of the file it is about.
-/

namespace InterpolationLint

structure Violation extends Diagnostic where
  file : String
deriving DecidableEq, Repr

namespace Violation

def ofDiagnostic (file : String) (d : Diagnostic) : Violation := { d with file }

def line (v : Violation) : Nat := v.location.start.line

def column (v : Violation) : Nat := v.location.start.column

end Violation

end InterpolationLint
