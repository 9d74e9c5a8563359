/-!
# Characters and places of YAML texts

Which characters may stand in a text, what ends a line, and places in a text with their line and
column.
-/

namespace InterpolationLint

def isYamlChar (c : Char) : Bool :=
  let n := c.toNat
  n == 0x09 || n == 0x0a || n == 0x0d || (0x20 ≤ n && n ≤ 0x7e) || n == 0x85 ||
    (0xa0 ≤ n && n ≤ 0xfffd) || 0x10000 ≤ n

/-- Every line ending but the two separators of Unicode becomes a newline. -/
def normalizeBreaks : List Char → List Char
  | [] => []
  | '\r' :: '\n' :: rest => '\n' :: normalizeBreaks rest
  | '\r' :: rest => '\n' :: normalizeBreaks rest
  | c :: rest => (if c = '\x85' then '\n' else c) :: normalizeBreaks rest

def isYamlBreak (c : Char) : Bool := c == '\n' || c == '\u2028' || c == '\u2029'

def isYamlSpace (c : Char) : Bool := c == ' ' || c == '\t'

def isYamlNameChar (c : Char) : Bool := c.isAlphanum || c == '_' || c == '-'

def atGap (cs : List Char) : Bool := cs.head?.all fun c => isYamlSpace c || isYamlBreak c

structure YamlCursor where
  ahead : List Char
  line : Nat
  column : Nat
deriving Repr

namespace YamlCursor

def advance (c : YamlCursor) (count : Nat) : YamlCursor :=
  { c with ahead := c.ahead.drop count, column := c.column + count }

/-- The place behind the next characters that satisfy `p`, none of which ends a line. -/
def skipWhile (c : YamlCursor) (p : Char → Bool) : YamlCursor :=
  c.advance (c.ahead.takeWhile p).length

def sees (c : YamlCursor) (mark : Char) : Bool := c.ahead.head? == some mark

def skipBreak (c : YamlCursor) : YamlCursor :=
  match c.ahead with
  | [] => c
  | first :: rest => if isYamlBreak first then ⟨rest, c.line + 1, 0⟩ else c

def skipComment (c : YamlCursor) : YamlCursor :=
  if c.sees '#' then c.skipWhile (!isYamlBreak ·) else c

/-- The start of the next line. Nothing but blanks and a comment may stand before it. -/
def finishLine? (c : YamlCursor) : Option YamlCursor :=
  let final := (c.skipWhile isYamlSpace).skipComment
  if final.ahead.head?.all isYamlBreak then some final.skipBreak else none

def atMarker (marker : String) (c : YamlCursor) : Bool :=
  c.column == 0 && marker.toList.isPrefixOf c.ahead && atGap (c.ahead.drop 3)

def atDocumentMarker (c : YamlCursor) : Bool := c.atMarker "---" || c.atMarker "..."

end YamlCursor

end InterpolationLint
