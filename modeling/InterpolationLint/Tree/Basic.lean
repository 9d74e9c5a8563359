import InterpolationLint.Text.Location

/-!
# Source trees

A source text is seen as a tree that keeps only what the rules look at: interpolated strings with
their segments, brackets that may hold more of them, and ranges for all else.
-/

namespace InterpolationLint

/-- How an interpolated string is opened: `$"`, `$@"` or `@$"`, or dollars before three or more
quotes. -/
inductive StringKind where
  | regular
  | verbatim
  | raw (dollars quotes : Nat)
deriving DecidableEq, Repr

def StringKind.braces : StringKind → Nat
  | .raw dollars _ => dollars
  | _ => 1

def StringKind.quotes : StringKind → Nat
  | .raw _ quotes => quotes
  | _ => 1

/-- Brackets around a group. Items side by side without brackets are a juxtaposition. -/
inductive Delimiter where
  | paren
  | bracket
  | brace
  | juxtaposition
deriving DecidableEq, Repr

mutual

inductive Expr where
  | interpolated (node : InterpolatedString)
  /-- A plain string, character or number. -/
  | literal (range : TextRange)
  /-- A run of code without structure. -/
  | code (range : TextRange)
  | group (delimiter : Delimiter) (range : TextRange) (children : List Expr)

structure InterpolatedString where
  id : Nat
  kind : StringKind
  /-- From the opening marker through the closing quotes. -/
  range : TextRange
  content : TextRange
  segments : List Segment

inductive Segment where
  /-- Text as written, escapes included. -/
  | text (text : String) (range : TextRange)
  /-- An embedded expression with its braces. -/
  | hole (range : TextRange) (expression : Expr) (alignment : Option Expr)
      (format : Option TextRange)

end

def Expr.range : Expr → TextRange
  | .interpolated node => node.range
  | .literal range => range
  | .code range => range
  | .group _ range _ => range

def Segment.range : Segment → TextRange
  | .text _ range => range
  | .hole range _ _ _ => range

def Segment.isHole : Segment → Bool
  | .text _ _ => false
  | .hole _ _ _ _ => true

namespace InterpolatedString

def opening (node : InterpolatedString) : TextRange := ⟨node.range.start, node.content.start⟩

def holeCount (node : InterpolatedString) : Nat := node.segments.countP Segment.isHole

end InterpolatedString

structure SourceTree where
  items : List Expr
  lines : LineIndex

end InterpolationLint
