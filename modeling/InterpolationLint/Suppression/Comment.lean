import InterpolationLint.Text.Blank

/-!
# Directives in comments

A comment that begins with the marker `interpcheck:` tells the linter to ignore a rule. In a line
comment the rule is the first word after the keyword, and a reason may follow it behind a hyphen. In
a block comment the rule is the shortest beginning of that word after which the comment can end,
with or without a reason.
-/

namespace InterpolationLint

inductive Keyword where
  | ignore
  | ignoreNextLine
  | ignoreFile
deriving DecidableEq, Repr

structure DirectiveComment where
  /-- What stands before the comment on its line. -/
  before : List Char
  keyword : Keyword
  rule : List Char
  reason : List Char
deriving DecidableEq, Repr

def afterFront? (front : String) (cs : List Char) : Option (List Char) :=
  if front.toList.isPrefixOf cs then some (cs.drop front.toList.length) else none

def Keyword.read? (cs : List Char) : Option (Keyword × List Char) := do
  let rest ← afterFront? "ignore" cs
  match afterFront? "-file" rest, afterFront? "-next-line" rest with
  | some rest, _ => return (.ignoreFile, rest)
  | none, some rest => return (.ignoreNextLine, rest)
  | none, none => return (.ignore, rest)

def directiveHead? (cs : List Char) : Option (Keyword × List Char) := do
  let rest ← afterFront? "interpcheck:" (trimStart cs)
  let (keyword, rest) ← Keyword.read? rest
  if rest.head?.any isBlank then return (keyword, trimStart rest) else none

def lineFields? (cs : List Char) : Option (List Char × List Char) :=
  match cs.takeWhile (!isBlank ·) with
  | [] => none
  | rule =>
    match trimStart (cs.dropWhile (!isBlank ·)) with
    | '-' :: reason => some (rule, trim reason)
    | _ => some (rule, [])

def beforeClose? : List Char → Option (List Char)
  | [] => none
  | '*' :: '/' :: _ => some []
  | c :: rest => (beforeClose? rest).map (c :: ·)

/-- The reason, if a block comment can end after its rule. -/
def blockEnd? (cs : List Char) : Option (List Char) :=
  match trimStart cs with
  | '-' :: reason => (beforeClose? reason).map trim
  | '*' :: '/' :: _ => some []
  | _ => none

def blockFields? : List Char → Option (List Char × List Char)
  | [] => none
  | c :: rest =>
    if isBlank c then none
    else
      match blockEnd? rest with
      | some reason => some ([c], reason)
      | none => (blockFields? rest).map fun (rule, reason) => (c :: rule, reason)

def directiveHere? (opening : String) (fields? : List Char → Option (List Char × List Char))
    (cs : List Char) : Option DirectiveComment := do
  let (keyword, rest) ← directiveHead? (← afterFront? opening cs)
  let (rule, reason) ← fields? rest
  return { before := [], keyword, rule, reason }

def findDirective? (opening : String) (fields? : List Char → Option (List Char × List Char)) :
    List Char → Option DirectiveComment
  | [] => none
  | c :: rest =>
    match directiveHere? opening fields? (c :: rest) with
    | some directive => some directive
    | none =>
      (findDirective? opening fields? rest).map fun d => { d with before := c :: d.before }

def lineDirective? : List Char → Option DirectiveComment := findDirective? "//" lineFields?

def blockDirective? : List Char → Option DirectiveComment := findDirective? "/*" blockFields?

end InterpolationLint
