import InterpolationLint.Text.Quoted
import InterpolationLint.Tree.Basic

/-!
# Segments that tile their string

The segments of an interpolated string are expected to cover its content from end to end, in order
and without gaps, each text being as long as its range. `InterpolatedString.fault?` names the first
thing that is wrong.
-/

namespace InterpolationLint

def neighbours {α : Type} (xs : List α) : List (α × α) := xs.zip xs.tail

inductive Fault where
  | contentOutside (content node : TextRange)
  | uncovered (content : TextRange)
  | startsAt (found expected : Nat)
  | textLength (text : String) (range : TextRange)
  | gap (left right : TextRange)
  | endsAt (found expected : Nat)
deriving DecidableEq, Repr

def Fault.message : Fault → String
  | .contentOutside content node => s!"content {content.text} lies outside node {node.text}"
  | .uncovered content => s!"no segments but content {content.text} is not empty"
  | .startsAt found expected =>
    s!"first segment starts at {found}, content starts at {expected}"
  | .textLength text range =>
    s!"literal text {quoted text} does not match range {range.text}"
  | .gap left right => s!"segments {left.text} and {right.text} are not contiguous"
  | .endsAt found expected => s!"last segment ends at {found}, content ends at {expected}"

def Segment.textFault? : Segment → Option Fault
  | .text written range =>
    if written.length = range.length then none else some (.textLength written range)
  | .hole _ _ _ _ => none

def gapFault? : Segment × Segment → Option Fault
  | (left, right) =>
    if left.range.stop = right.range.start then none else some (.gap left.range right.range)

/-- The first fault, in this order: the content leaves the node, nothing covers it, the first
segment starts elsewhere, a text has the wrong length, two segments do not meet, the last segment
ends elsewhere. -/
def InterpolatedString.fault? (node : InterpolatedString) : Option Fault :=
  if !node.range.contains node.content then some (.contentOutside node.content node.range)
  else
    match node.segments.head?, node.segments.getLast? with
    | some first, some last =>
      if first.range.start ≠ node.content.start then
        some (.startsAt first.range.start node.content.start)
      else
        (node.segments.findSome? Segment.textFault?).or <|
        ((neighbours node.segments).findSome? gapFault?).or <|
        if last.range.stop ≠ node.content.stop then
          some (.endsAt last.range.stop node.content.stop)
        else none
    | _, _ => if node.content.isEmpty then none else some (.uncovered node.content)

end InterpolationLint
