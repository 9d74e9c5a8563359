import InterpolationLint.Yaml.Basic

/-!
# Scalars of YAML texts

Plain, quoted and block scalars. Inside plain and quoted scalars the blanks around line endings
fold: one line ending becomes a space, and of several all but the first stay. Block scalars keep
their lines, or fold lines that do not begin with a blank.
-/

namespace InterpolationLint

inductive ScalarStyle where
  | plain
  | quoted
  | literal
  | folded
deriving DecidableEq, Repr

def foldGap (gap : List Char) : List Char :=
  match gap.filter isYamlBreak with
  | [] => gap
  | ['\n'] => [' ']
  | '\n' :: more => more
  | breaks => breaks

def hasBreak (gap : List Char) : Bool := gap.any isYamlBreak

/-! ## Plain scalars -/

def endsPlain (inFlow : Bool) (cs : List Char) : Bool :=
  match cs with
  | [] => true
  | ':' :: rest => atGap rest
  | c :: _ => inFlow && [',', '[', ']', '\x7b', '\x7d'].contains c

/-- Inside brackets a colon may not be followed by an indicator. -/
def misplacedColon (inFlow : Bool) : List Char → Bool
  | ':' :: c :: _ => inFlow && [',', '?', '[', ']', '\x7b', '\x7d'].contains c
  | _ => false

/-- Reads a plain scalar, and says whether the place behind it is on another line than its last
character. `text` has been read, the last character first, and then `gap`. The next lines belong to
the scalar if they begin at column `level` or later. -/
def readPlain (inFlow : Bool) (level : Nat) (text gap : List Char) (line column : Nat) :
    List Char → Option (List Char × YamlCursor × Bool)
  | [] => some (text.reverse, ⟨[], line, column⟩, hasBreak gap)
  | c :: rest =>
    let here : YamlCursor := ⟨c :: rest, line, column⟩
    if isYamlBreak c then
      readPlain inFlow level text (gap ++ [c]) (line + 1) 0 rest
    else if isYamlSpace c then
      if c == '\t' && hasBreak gap && column < level then none
      else readPlain inFlow level text (gap ++ [c]) line (column + 1) rest
    else if !gap.isEmpty && (c == '#' || (!inFlow && column < level)) then
      some (text.reverse, here, hasBreak gap)
    else if here.atDocumentMarker then some (text.reverse, here, hasBreak gap)
    else if misplacedColon inFlow (c :: rest) then none
    else if endsPlain inFlow (c :: rest) then some (text.reverse, here, hasBreak gap)
    else readPlain inFlow level (c :: (foldGap gap).reverse ++ text) [] line (column + 1) rest

def startsPlain (inFlow : Bool) : List Char → Bool
  | [] => false
  | c :: rest =>
    let indicators := ['-', '?', ':', ',', '[', ']', '\x7b', '\x7d', '#', '&', '*', '!', '|', '>',
      '\'', '"', '%', '@', Char.ofNat 0x60]
    (!isYamlSpace c && !isYamlBreak c && !indicators.contains c) ||
      (c == '-' && !atGap rest) || (!inFlow && (c == '?' || c == ':') && !atGap rest)

/-! ## Quoted scalars -/

def hexDigit? (c : Char) : Option Nat :=
  if c.isDigit then some (c.toNat - '0'.toNat)
  else if 'a' ≤ c ∧ c ≤ 'f' then some (c.toNat - 'a'.toNat + 10)
  else if 'A' ≤ c ∧ c ≤ 'F' then some (c.toNat - 'A'.toNat + 10)
  else none

def hexValue? (digits : List Char) : Option Nat := do
  return (← digits.mapM hexDigit?).foldl (fun n d => 16 * n + d) 0

def hexChar? (digits : List Char) : Option Char := do
  let code ← hexValue? digits
  if code.isValidChar then some (Char.ofNat code) else none

def escapeChar? : Char → Option Char
  | '0' => some '\x00'
  | 'a' => some '\x07'
  | 'b' => some '\x08'
  | 't' => some '\t'
  | '\t' => some '\t'
  | 'n' => some '\n'
  | 'v' => some '\x0b'
  | 'f' => some '\x0c'
  | 'r' => some '\r'
  | 'e' => some '\x1b'
  | ' ' => some ' '
  | '"' => some '"'
  | '/' => some '/'
  | '\\' => some '\\'
  | 'N' => some '\x85'
  | '_' => some '\xa0'
  | 'L' => some '\u2028'
  | 'P' => some '\u2029'
  | _ => none

def escapeDigits? : Char → Option Nat
  | 'x' => some 2
  | 'u' => some 4
  | 'U' => some 8
  | _ => none

inductive QuotedState where
  /-- Characters, behind a gap that folds. -/
  | text (gap : List Char)
  /-- Characters, behind an escaped line ending and a gap of which only line endings stay. -/
  | joined (gap : List Char)
  /-- The character behind a backslash. -/
  | escape
  /-- The rest of `count` digits. -/
  | code (count : Nat) (digits : List Char)
  /-- A second single quote, or else the scalar has ended. -/
  | closing
deriving Repr

/-- Reads a quoted scalar behind its opening quote. `text` has been read, the last character
first. -/
def readQuoted (quote : Char) (text : List Char) (state : QuotedState) (line column : Nat) :
    List Char → Option (List Char × YamlCursor)
  | [] =>
    match state with
    | .closing => some (text.reverse, ⟨[], line, column⟩)
    | _ => none
  | c :: rest =>
    let after (text : List Char) : Option (List Char × YamlCursor) :=
      if (YamlCursor.mk (c :: rest) line column).atDocumentMarker then none
      else if c == quote then
        if quote == '"' then some (text.reverse, ⟨rest, line, column + 1⟩)
        else readQuoted quote text .closing line (column + 1) rest
      else if quote == '"' && c == '\\' then readQuoted quote text .escape line (column + 1) rest
      else readQuoted quote (c :: text) (.text []) line (column + 1) rest
    match state with
    | .closing =>
      if c == quote then readQuoted quote (c :: text) (.text []) line (column + 1) rest
      else some (text.reverse, ⟨c :: rest, line, column⟩)
    | .escape =>
      if isYamlBreak c then readQuoted quote text (.joined []) (line + 1) 0 rest
      else
        match escapeChar? c, escapeDigits? c with
        | some e, _ => readQuoted quote (e :: text) (.text []) line (column + 1) rest
        | none, some count => readQuoted quote text (.code count []) line (column + 1) rest
        | none, none => none
    | .code count digits =>
      if digits.length + 1 < count then
        readQuoted quote text (.code count (digits ++ [c])) line (column + 1) rest
      else
        match hexChar? (digits ++ [c]) with
        | some e => readQuoted quote (e :: text) (.text []) line (column + 1) rest
        | none => none
    | .text gap =>
      if isYamlBreak c then readQuoted quote text (.text (gap ++ [c])) (line + 1) 0 rest
      else if isYamlSpace c then
        readQuoted quote text (.text (gap ++ [c])) line (column + 1) rest
      else after ((foldGap gap).reverse ++ text)
    | .joined gap =>
      if isYamlBreak c then readQuoted quote text (.joined (gap ++ [c])) (line + 1) 0 rest
      else if isYamlSpace c then readQuoted quote text (.joined gap) line (column + 1) rest
      else after (gap.reverse ++ text)

/-! ## Block scalars -/

inductive Chomping where
  /-- All are left out. -/
  | strip
  /-- The first stays. -/
  | clip
  /-- All stay. -/
  | keep
deriving DecidableEq, Repr

def chomping? : Char → Option Chomping
  | '-' => some .strip
  | '+' => some .keep
  | _ => none

def increment? (c : Char) : Option Nat :=
  if c.isDigit ∧ c ≠ '0' then some (c.toNat - '0'.toNat) else none

def readBlockHeader (c : YamlCursor) : Chomping × Option Nat × YamlCursor :=
  match c.ahead with
  | [] => (.clip, none, c)
  | [first] =>
    match chomping? first, increment? first with
    | some chomping, _ => (chomping, none, c.advance 1)
    | none, some increment => (.clip, some increment, c.advance 1)
    | none, none => (.clip, none, c)
  | first :: second :: _ =>
    match chomping? first, increment? first with
    | some chomping, _ =>
      match increment? second with
      | some increment => (chomping, some increment, c.advance 2)
      | none => (chomping, none, c.advance 1)
    | none, some increment =>
      match chomping? second with
      | some chomping => (chomping, some increment, c.advance 2)
      | none => (.clip, some increment, c.advance 1)
    | none, none => (.clip, none, c)

/-- Leaves out indentation and reads line endings up to a line with something behind its
indentation of `indent` columns, or of any width. `deepest` is the width of the widest so far. A
tab is no indentation. -/
def readBlankLines (indent : Option Nat) (breaks : List Char) (deepest line column : Nat) :
    List Char → Option (List Char × Nat × YamlCursor)
  | [] => some (breaks, max deepest column, ⟨[], line, column⟩)
  | c :: rest =>
    let indenting := indent.all (column < ·)
    if c == ' ' && indenting then readBlankLines indent breaks deepest line (column + 1) rest
    else if c == '\t' && indenting then none
    else if isYamlBreak c then
      readBlankLines indent (breaks ++ [c]) (max deepest column) (line + 1) 0 rest
    else some (breaks, max deepest column, ⟨c :: rest, line, column⟩)

structure BlockText where
  /-- The lines, the last character first. -/
  text : List Char
  /-- The ending of the last line. -/
  ending : List Char
  /-- The endings of blank lines behind it. -/
  blanks : List Char
  /-- The last line begins with a blank. -/
  indented : Bool

/-- The text with all line endings that stand before a further line. Two lines that do not begin
with a blank fold. -/
def BlockText.joined (folds : Bool) (block : BlockText) (indented : Bool) : List Char :=
  let ending :=
    if folds && block.ending == ['\n'] && !block.indented && !indented then
      if block.blanks.isEmpty then [' '] else []
    else block.ending
  (ending ++ block.blanks).reverse ++ block.text

def readBlockLines (folds : Bool) (indent : Nat) :
    Nat → BlockText → YamlCursor → Option (BlockText × YamlCursor)
  | 0, _, _ => none
  | budget + 1, block, c =>
    if c.column ≠ indent ∨ c.ahead.isEmpty then some (block, c)
    else do
      let indented := c.ahead.head?.any isYamlSpace
      let line := c.ahead.takeWhile (!isYamlBreak ·)
      let final := c.advance line.length
      let next := final.skipBreak
      let (blanks, _, after) ←
        readBlankLines (some indent) [] 0 next.line next.column next.ahead
      let block := {
        text := line.reverse ++ block.joined folds indented
        ending := final.ahead.take 1
        blanks
        indented }
      readBlockLines folds indent budget block after

def readBlock (folds : Bool) (level : Nat) (c : YamlCursor) :
    Option (List Char × YamlCursor) := do
  let (chomping, increment, behind) := readBlockHeader c
  let start ← behind.finishLine?
  let given := increment.map (level - 1 + ·)
  let (blanks, deepest, first) ← readBlankLines given [] 0 start.line start.column start.ahead
  let indent := given.getD (max 1 (max level deepest))
  let (block, after) ←
    readBlockLines folds indent (c.ahead.length + 1) ⟨[], [], blanks, false⟩ first
  let tail := match chomping with
    | .strip => []
    | .clip => block.ending
    | .keep => block.ending ++ block.blanks
  return (block.text.reverse ++ tail, after)

end InterpolationLint
