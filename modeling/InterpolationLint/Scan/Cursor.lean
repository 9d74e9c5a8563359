import InterpolationLint.Text.Location

/-!
# Cursors

A cursor is a place in a text: its offset, the characters ahead of it, whether only blanks precede
it on its line, and the number of interpolated strings opened before it.
-/

namespace InterpolationLint

structure Cursor where
  offset : Nat
  ahead : List Char
  lineStart : Bool
  opened : Nat
deriving DecidableEq, Repr

def isIndent (c : Char) : Bool := c == ' ' || c == '\t' || c == byteOrderMark

/-- Whether only indentation precedes the place after `text` on its line, given the same of the
place before it. -/
def lineStartAfter (lineStart : Bool) : List Char → Bool
  | [] => lineStart
  | c :: rest => lineStartAfter (c == '\n' || (lineStart && isIndent c)) rest

namespace Cursor

def atStart (text : List Char) : Cursor where
  offset := LineIndex.markLength text
  ahead := text.drop (LineIndex.markLength text)
  lineStart := true
  opened := 0

def advance (c : Cursor) (count : Nat) : Cursor where
  offset := c.offset + count
  ahead := c.ahead.drop count
  lineStart := lineStartAfter c.lineStart (c.ahead.take count)
  opened := c.opened

def enter (c : Cursor) (count : Nat) : Cursor :=
  { c.advance count with opened := c.opened + 1 }

def span (c : Cursor) (count : Nat) : TextRange := ⟨c.offset, c.offset + count⟩

def textUpTo (c later : Cursor) : List Char := c.ahead.take (later.offset - c.offset)

end Cursor

end InterpolationLint
