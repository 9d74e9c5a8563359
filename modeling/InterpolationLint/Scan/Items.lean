import InterpolationLint.Scan.Cursor
import InterpolationLint.Scan.StringText

/-!
# Scanning a text into its tree

The scanner reads lexemes and nests them: brackets, interpolated strings and their holes. It counts
its steps down from a budget. A run that spends it all has no answer; `scanBudget` is linear in the
length of the text and is never spent.
-/

namespace InterpolationLint

inductive Halt where
  | exhausted
  | failed (failure : ScanFailure)
deriving DecidableEq, Repr

/-- Items of a hole's expression as one expression: the item itself, or a juxtaposition. Without
items it is empty and stands at `offset`. -/
def juxtapose (items : List Expr) (offset : Nat) : Expr :=
  match items with
  | [] => .group .juxtaposition ⟨offset, offset⟩ []
  | [item] => item
  | first :: second :: rest =>
    let last := (second :: rest).getLast (by simp)
    .group .juxtaposition ⟨first.range.start, last.range.stop⟩ (first :: second :: rest)

def textBetween (start stop : Cursor) : List Segment :=
  if start.offset < stop.offset then
    [.text (String.ofList (start.textUpTo stop)) ⟨start.offset, stop.offset⟩]
  else []

/-- The format clause at a place in a hole, if one begins there, and the place behind it. It runs
to the next closing brace, over anything. -/
def formatClause (c : Cursor) : Option TextRange × Cursor :=
  if c.ahead.head? = some ':' then
    let start := c.advance 1
    let length := (start.ahead.takeWhile (· != '\x7d')).length
    (some (start.span length), start.advance length)
  else (none, c)

def expressionStops : List Char := [',', ':', '\x7d']

def alignmentStops : List Char := [':', '\x7d']

mutual

/-- Items up to the end of the text or an unnested character in `stops`. -/
def scanItems : Nat → List Char → Cursor → Except Halt (List Expr × Cursor)
  | 0, _, _ => .error .exhausted
  | budget + 1, stops, c =>
    match Lexeme.read stops c.lineStart c.ahead with
    | .stop => .ok ([], c)
    | .broken problem => .error (.failed ⟨problem, c.offset⟩)
    | .trivia length => scanItems budget stops (c.advance length)
    | .literal length => do
      let (rest, final) ← scanItems budget stops (c.advance length)
      return (.literal (c.span length) :: rest, final)
    | .code length => do
      let (rest, final) ← scanItems budget stops (c.advance length)
      return (.code (c.span length) :: rest, final)
    | .opening delimiter bracket close => do
      let (children, inner) ← scanItems budget [close] (c.advance 1)
      if inner.ahead.head? = some close then
        let (rest, final) ← scanItems budget stops (inner.advance 1)
        return (.group delimiter ⟨c.offset, inner.offset + 1⟩ children :: rest, final)
      else .error (.failed ⟨.unbalanced bracket, c.offset⟩)
    | .string kind marker => do
      let start := c.enter marker
      let (segments, inner) ← scanSegments budget kind c.offset start start
      let (rest, final) ← scanItems budget stops (inner.advance kind.quotes)
      let node : InterpolatedString := {
        id := c.opened
        kind
        range := ⟨c.offset, inner.offset + kind.quotes⟩
        content := ⟨start.offset, inner.offset⟩
        segments }
      return (.interpolated node :: rest, final)

/-- Segments of an interpolated string up to its closing quotes. The string opened at offset
`opened`, and the text not yet in a segment began at `pending`. -/
def scanSegments : Nat → StringKind → Nat → Cursor → Cursor →
    Except Halt (List Segment × Cursor)
  | 0, _, _, _, _ => .error .exhausted
  | budget + 1, kind, opened, pending, c =>
    match StringPart.read kind c.ahead with
    | .broken => .error (.failed ⟨.unterminatedString, opened⟩)
    | .close => .ok (textBetween pending c, c)
    | .text length => scanSegments budget kind opened pending (c.advance length)
    | .hole => do
      let (hole, after) ← scanHole budget kind.braces c
      let (rest, final) ← scanSegments budget kind opened after after
      return (textBetween pending c ++ hole :: rest, final)

def scanHole : Nat → Nat → Cursor → Except Halt (Segment × Cursor)
  | 0, _, _ => .error .exhausted
  | budget + 1, braces, c => do
    let (items, c₁) ← scanItems budget expressionStops (c.advance braces)
    let (alignment, c₂) ←
      if c₁.ahead.head? = some ',' then do
        let (items, c₂) ← scanItems budget alignmentStops (c₁.advance 1)
        pure (some (juxtapose items c₂.offset), c₂)
      else pure (none, c₁)
    let (format, c₃) := formatClause c₂
    if runLength '\x7d' c₃.ahead < braces then .error (.failed ⟨.unterminatedHole, c.offset⟩)
    else
      let range := ⟨c.offset, c₃.offset + braces⟩
      return (.hole range (juxtapose items c₁.offset) alignment format, c₃.advance braces)

end

def scanBudget (length : Nat) : Nat := 2 * length + 1

/-- The items of a text. The budget is not spent, so the second case does not arise. -/
def scanText (text : List Char) : Except ScanFailure (List Expr) :=
  match scanItems (scanBudget text.length) [] (Cursor.atStart text) with
  | .ok (items, _) => .ok items
  | .error .exhausted => .ok []
  | .error (.failed failure) => .error failure

def SourceTree.ofChars (text : List Char) : Except ScanFailure SourceTree := do
  let items ← scanText text
  return ⟨items, LineIndex.ofChars text⟩

def SourceTree.ofSource (source : String) : Except ScanFailure SourceTree :=
  SourceTree.ofChars source.toList

end InterpolationLint
