import InterpolationLint.Tree.Basic

/-!
# The interpolated strings of a tree

Every interpolated string of a tree, at any depth, in source order: an outer string stands before
the strings inside its holes.
-/

namespace InterpolationLint

mutual

def Expr.nodes : Expr → List InterpolatedString
  | .interpolated ⟨id, kind, range, content, segments⟩ =>
    ⟨id, kind, range, content, segments⟩ :: Segment.nodesOf segments
  | .literal _ => []
  | .code _ => []
  | .group _ _ children => Expr.nodesOf children

def Expr.nodesOf : List Expr → List InterpolatedString
  | [] => []
  | expr :: rest => expr.nodes ++ Expr.nodesOf rest

/-- A hole contributes the strings of its expression, then those of its alignment. -/
def Segment.nodesOf : List Segment → List InterpolatedString
  | [] => []
  | .text _ _ :: rest => Segment.nodesOf rest
  | .hole _ expression none _ :: rest => expression.nodes ++ Segment.nodesOf rest
  | .hole _ expression (some alignment) _ :: rest =>
    expression.nodes ++ (alignment.nodes ++ Segment.nodesOf rest)

end

def SourceTree.nodes (tree : SourceTree) : List InterpolatedString := Expr.nodesOf tree.items

end InterpolationLint
