/-!
# Glob patterns

A pattern is a list of tokens. Wild cards match bytes, and a run of any bytes may hold separators;
only the tokens for whole directories look at `/`.
-/

namespace InterpolationLint

inductive GlobToken where
  | literal (c : Char)
  /-- `?`: one byte. -/
  | anyByte
  /-- `*`: any bytes. -/
  | anyBytes
  /-- `**/` at the front: nothing, or directories up to a separator. -/
  | leadingDirectories
  /-- `/**` at the end: a separator and any bytes. -/
  | trailingDirectories
  /-- `/**/` in between: a separator, or two with any bytes between them. -/
  | innerDirectories
  /-- `[...]`: one byte of a class, or one outside it. -/
  | byteClass (negated : Bool) (ranges : List (Char × Char))
  /-- `{...}`: one of several patterns. -/
  | alternatives (branches : List (List GlobToken))

inductive GlobProblem where
  | unclosedClass
  | invalidRange (first last : Char)
  | unopenedAlternatives
  | unclosedAlternatives
  | danglingEscape
deriving DecidableEq, Repr

def GlobProblem.message : GlobProblem → String
  | .unclosedClass => "unclosed character class; missing ']'"
  | .invalidRange first last => s!"invalid range; '{first}' > '{last}'"
  | .unopenedAlternatives =>
    "unopened alternate group; missing '\x7b' (maybe escape '\x7d' with '[\x7d]'?)"
  | .unclosedAlternatives =>
    "unclosed alternate group; missing '\x7d' (maybe escape '\x7b' with '[\x7b]'?)"
  | .danglingEscape => "dangling '\\'"

end InterpolationLint
