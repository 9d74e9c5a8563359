import InterpolationLint.Scan.Failure
import InterpolationLint.Text.Blank
import InterpolationLint.Tree.Basic

/-!
# Lexemes of code

What begins at a place in code, judged by the characters ahead alone: trivia, a literal, a run of
plain code, a bracket, or the marker that opens an interpolated string. Each comes with its length
in characters. The readers below return `none` for what is never closed.
-/

namespace InterpolationLint

def runLength (c : Char) (cs : List Char) : Nat := (cs.takeWhile (· == c)).length

def restOfLine (cs : List Char) : Nat := (cs.takeWhile (· != '\n')).length

def blockCommentTail : List Char → Option Nat
  | [] => none
  | '*' :: '/' :: _ => some 2
  | _ :: rest => (blockCommentTail rest).map (· + 1)

/-- Length of a string or character literal after its opening `quote`, the closing one included. A
backslash takes the next character with it, whatever that is. -/
def quotedTail (quote : Char) : List Char → Option Nat
  | [] => none
  | '\\' :: [] => none
  | '\\' :: _ :: rest => (quotedTail quote rest).map (· + 2)
  | c :: rest =>
    if c = '\n' then none
    else if c = quote then some 1
    else (quotedTail quote rest).map (· + 1)

/-- Length of a verbatim literal after its opening. Two quotes stand for one. -/
def verbatimTail : List Char → Option Nat
  | [] => none
  | '"' :: '"' :: rest => (verbatimTail rest).map (· + 2)
  | '"' :: _ => some 1
  | _ :: rest => (verbatimTail rest).map (· + 1)

/-- Length of a raw literal after its opening of `quotes` quotes, when `run` quotes have just been
read. The first run of that many quotes or more closes it, as a whole. -/
def rawTail (quotes : Nat) : Nat → List Char → Option Nat
  | run, [] => if quotes ≤ run then some 0 else none
  | run, '"' :: rest => (rawTail quotes (run + 1) rest).map (· + 1)
  | run, _ :: rest => if quotes ≤ run then some 0 else (rawTail quotes 0 rest).map (· + 1)

def stringLength (cs : List Char) : Option Nat :=
  let quotes := runLength '"' cs
  if 3 ≤ quotes then (rawTail quotes 0 (cs.drop quotes)).map (· + quotes)
  else (quotedTail '"' (cs.drop 1)).map (· + 1)

/-- Length of a number. A point belongs to it if a digit follows. -/
def numberLength : List Char → Nat
  | [] => 0
  | c :: rest =>
    if c.isAlphanum || c == '_' || (c == '.' && rest.head?.any Char.isDigit) then
      numberLength rest + 1
    else 0

def opening? : List Char → Option (StringKind × Nat)
  | '$' :: '@' :: '"' :: _ => some (.verbatim, 3)
  | '@' :: '$' :: '"' :: _ => some (.verbatim, 3)
  | cs =>
    let dollars := runLength '$' cs
    let quotes := runLength '"' (cs.drop dollars)
    if dollars = 0 then none
    else if 3 ≤ quotes then some (.raw dollars quotes, dollars + quotes)
    else if dollars = 1 ∧ 1 ≤ quotes then some (.regular, 2)
    else none

def bracket? : Char → Option (Delimiter × Char)
  | '(' => some (.paren, ')')
  | '[' => some (.bracket, ']')
  | '\x7b' => some (.brace, '\x7d')
  | _ => none

def isClosing (c : Char) : Bool := c == ')' || c == ']' || c == '\x7d'

/-- Two colons, as in a qualified name, are no end of a hole's expression. -/
def atScopeQualifier : List Char → Bool
  | ':' :: ':' :: _ => true
  | _ => false

def startsItem : List Char → Bool
  | '"' :: _ => true
  | '\'' :: _ => true
  | '/' :: '/' :: _ => true
  | '/' :: '*' :: _ => true
  | '@' :: '"' :: _ => true
  | cs => (opening? cs).isSome

def codeTail (stops : List Char) : List Char → Nat
  | [] => 0
  | ':' :: ':' :: rest => codeTail stops rest + 2
  | c :: rest =>
    if isBlank c || stops.contains c || (bracket? c).isSome || isClosing c
        || startsItem (c :: rest) then 0
    else codeTail stops rest + 1

/-- Length of a run of plain code. Its first character, or two colons, is taken unseen. -/
def codeLength (stops : List Char) (cs : List Char) : Nat :=
  let head := if atScopeQualifier cs then 2 else 1
  codeTail stops (cs.drop head) + head

inductive Lexeme where
  /-- The end of the text, or a character that ends the list of items. -/
  | stop
  /-- Blanks, a comment or a directive line. -/
  | trivia (length : Nat)
  | literal (length : Nat)
  | code (length : Nat)
  | opening (delimiter : Delimiter) (bracket close : Char)
  | string (kind : StringKind) (marker : Nat)
  | broken (problem : ScanProblem)
deriving DecidableEq, Repr

def Lexeme.ofLiteral? : Option Nat → Lexeme
  | some length => .literal length
  | none => .broken .unterminatedString

def Lexeme.ofItem (stops : List Char) (cs : List Char) : Lexeme :=
  match opening? cs with
  | some (kind, marker) => .string kind marker
  | none =>
    match cs with
    | [] => .stop
    | '"' :: _ => .ofLiteral? (stringLength cs)
    | '@' :: '"' :: rest => .ofLiteral? ((verbatimTail rest).map (· + 2))
    | '\'' :: rest => .ofLiteral? ((quotedTail '\'' rest).map (· + 1))
    | c :: _ =>
      match bracket? c with
      | some (delimiter, close) => .opening delimiter c close
      | none =>
        if c.isDigit then .literal (numberLength cs)
        else if isClosing c then .broken (.unbalanced c)
        else .code (codeLength stops cs)

/-- The lexeme at the front of `cs`. Items end at an unnested character in `stops`. A hash sign
begins a directive line if only blanks stand before it on its line. -/
def Lexeme.read (stops : List Char) (lineStart : Bool) (cs : List Char) : Lexeme :=
  match cs with
  | [] => .stop
  | c :: rest =>
    if stops.contains c && !atScopeQualifier cs then .stop
    else if isBlank c then .trivia (cs.takeWhile isBlank).length
    else if c == '/' && rest.head? == some '/' then .trivia (restOfLine cs)
    else if c == '/' && rest.head? == some '*' then
      match blockCommentTail rest.tail with
      | some length => .trivia (length + 2)
      | none => .broken .unterminatedComment
    else if c == '#' && lineStart then .trivia (restOfLine cs)
    else .ofItem stops cs

end InterpolationLint
