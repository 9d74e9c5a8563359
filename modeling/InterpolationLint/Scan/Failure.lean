/-!
# Why a text cannot be scanned

A failure is a problem and the character offset of the construct that has it: the opening of what
is never closed, or the bracket that has no partner.
-/

namespace InterpolationLint

inductive ScanProblem where
  | unterminatedString
  | unterminatedHole
  | unterminatedComment
  | unbalanced (bracket : Char)
deriving DecidableEq, Repr

structure ScanFailure where
  problem : ScanProblem
  offset : Nat
deriving DecidableEq, Repr

def ScanFailure.message (failure : ScanFailure) : String :=
  match failure.problem with
  | .unterminatedString => s!"unterminated string literal starting at offset {failure.offset}"
  | .unterminatedHole => s!"unterminated interpolation hole starting at offset {failure.offset}"
  | .unterminatedComment => s!"unterminated block comment starting at offset {failure.offset}"
  | .unbalanced bracket => s!"unbalanced '{bracket}' at offset {failure.offset}"

end InterpolationLint
