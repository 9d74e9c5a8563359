import InterpolationLint.FileTree.Basic

/-!
# Results of commands

A command ends with an exit code, writes to its two outputs, and may leave new files behind.
-/

namespace InterpolationLint

structure CommandResult where
  exitCode : Nat
  output : String
  errorOutput : String
  files : FileTree

namespace CommandResult

def success : Nat := 0

/-- Violations were found that count as a failure. -/
def failed : Nat := 1

/-- The command could not be carried out. -/
def broken : Nat := 2

end CommandResult

end InterpolationLint
