import InterpolationLint.Rule.Basic
import InterpolationLint.Tree.Tiling

/-!
# Findings

What the rules find in one interpolated string, as ranges of offsets.
-/

namespace InterpolationLint

structure Finding where
  rule : Rule
  node : Nat
  range : TextRange
deriving DecidableEq, Repr

namespace InterpolatedString

/-- A text that ends in a dollar sign, right before a hole. The finding is that last character. -/
def dollarBefore? (id : Nat) : Segment × Segment → Option Finding
  | (.text text range, .hole _ _ _ _) =>
    if text.toList.getLast? = some '$' then
      some ⟨.dollarBrace, id, .single (range.stop - 1)⟩
    else none
  | _ => none

def dollarBraces (node : InterpolatedString) : List Finding :=
  (neighbours node.segments).filterMap (dollarBefore? node.id)

def unnecessary? (node : InterpolatedString) : Option Finding :=
  if node.segments.any Segment.isHole then none
  else some ⟨.unnecessaryInterpolation, node.id, node.opening⟩

end InterpolatedString

def Rule.findings (nodes : List InterpolatedString) : Rule → List Finding
  | dollarBrace => nodes.flatMap (·.dollarBraces)
  | unnecessaryInterpolation => nodes.filterMap (·.unnecessary?)

end InterpolationLint
