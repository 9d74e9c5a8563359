import InterpolationLint.Text.Blank
import InterpolationLint.Text.Range

/-!
# Lines and columns

A `LineIndex` knows where the lines of a text start, and turns character offsets into lines and
columns, both counted from one. A leading byte order mark has offset zero and takes no column.
-/

namespace InterpolationLint

structure Position where
  line : Nat
  column : Nat
deriving DecidableEq, Repr, Inhabited

/-- A place in a text, from its first character up to the one after its last. -/
structure Location where
  start : Position
  stop : Position
deriving DecidableEq, Repr, Inhabited

def Position.text (p : Position) : String := s!"{p.line}:{p.column}"

def Location.text (l : Location) : String := l.start.text

structure LineIndex where
  starts : List Nat
  length : Nat
deriving DecidableEq, Repr, Inhabited

structure OutOfText where
  offset : Nat
  length : Nat
deriving DecidableEq, Repr

namespace LineIndex

def startsFrom (offset : Nat) : List Char → List Nat
  | [] => []
  | '\n' :: rest => (offset + 1) :: startsFrom (offset + 1) rest
  | _ :: rest => startsFrom (offset + 1) rest

/-- Length of the byte order mark at the front of a text: one or zero. -/
def markLength : List Char → Nat
  | [] => 0
  | c :: _ => if c = byteOrderMark then 1 else 0

def ofChars (text : List Char) : LineIndex where
  starts := markLength text :: startsFrom 0 text
  length := text.length

def ofText (text : String) : LineIndex := ofChars text.toList

def isEmpty (index : LineIndex) : Bool := index.length == 0

def lineCount (index : LineIndex) : Nat := index.starts.length

/-- The position of an offset. The offset one past the last character has one too, so that the
ends of ranges resolve. -/
def position (index : LineIndex) (offset : Nat) : Except OutOfText Position :=
  if index.length < offset then .error ⟨offset, index.length⟩
  else
    let line := (index.starts.takeWhile (· ≤ offset)).length - 1
    .ok ⟨line + 1, offset - index.starts.getD line 0 + 1⟩

def locate (index : LineIndex) (range : TextRange) : Except OutOfText Location :=
  match index.position range.start with
  | .error e => .error e
  | .ok start =>
    match index.position range.stop with
    | .error e => .error e
    | .ok stop => .ok ⟨start, stop⟩

end LineIndex

end InterpolationLint
