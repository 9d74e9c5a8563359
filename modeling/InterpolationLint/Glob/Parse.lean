import InterpolationLint.Glob.Basic

/-!
# Reading glob patterns

The reader keeps the tokens of the branch it is in, the latest first, and a frame for each group
of alternatives that is open.
-/

namespace InterpolationLint

/-- An open group: the branch around it and its finished branches, the latest first. -/
structure GlobFrame where
  around : List GlobToken
  finished : List (List GlobToken)

structure ClassState where
  negated : Bool
  /-- The ranges so far, the latest first. -/
  ranges : List (Char × Char)
  /-- A hyphen has been read after the latest character. -/
  hyphen : Bool

/-- What `**` means after the tokens `latest`, between two characters of the pattern, with the
tokens then; the flag tells whether a separator behind it belongs to it. -/
def doubleStar (inGroup : Bool) (latest : List GlobToken) (previous next : Option Char) :
    List GlobToken × Bool :=
  let twoStars := (.anyBytes :: .anyBytes :: latest, false)
  let directories (token : GlobToken) : List GlobToken :=
    match latest with
    | .leadingDirectories :: _ => latest
    | .trailingDirectories :: _ => latest
    | _ :: rest => token :: rest
    | [] => [token]
  if latest.isEmpty then
    match next with
    | none => ([.leadingDirectories], false)
    | some '/' => ([.leadingDirectories], true)
    | some _ => twoStars
  else if previous ≠ some '/' ∧ ¬(inGroup ∧ (previous = some ',' ∨ previous = some '\x7b')) then
    twoStars
  else
    match next with
    | none => (directories .trailingDirectories, false)
    | some '/' => (directories .innerDirectories, true)
    | some c =>
      if inGroup && (c == ',' || c == '\x7d') then (directories .trailingDirectories, false)
      else twoStars

/-- Adds a character to a class. Behind a hyphen it ends a range. -/
def ClassState.add (state : ClassState) (c : Char) : Except GlobProblem ClassState :=
  match state.hyphen, state.ranges with
  | true, (first, _) :: rest =>
    if c < first then .error (.invalidRange first c)
    else .ok { state with ranges := (first, c) :: rest, hyphen := false }
  | _, ranges => .ok { state with ranges := (c, c) :: ranges, hyphen := false }

/-- The token of a finished class. A hyphen at its end stands for itself. -/
def ClassState.token (state : ClassState) : GlobToken :=
  .byteClass state.negated
    (if state.hyphen then ('-', '-') :: state.ranges else state.ranges).reverse

mutual

def readGlob (frames : List GlobFrame) (latest : List GlobToken) (previous : Option Char) :
    List Char → Except GlobProblem (List GlobToken)
  | [] => if frames.isEmpty then .ok latest.reverse else .error .unclosedAlternatives
  | '?' :: rest => readGlob frames (.anyByte :: latest) (some '?') rest
  | '*' :: '*' :: rest =>
    let (tokens, takesSeparator) := doubleStar (!frames.isEmpty) latest previous rest.head?
    match rest with
    | [] => readGlob frames tokens (some '*') []
    | c :: more =>
      if takesSeparator then readGlob frames tokens (some c) more
      else readGlob frames tokens (some '*') (c :: more)
  | '*' :: rest => readGlob frames (.anyBytes :: latest) (some '*') rest
  | '[' :: '!' :: rest => readClass frames latest ⟨true, [], false⟩ rest
  | '[' :: '^' :: rest => readClass frames latest ⟨true, [], false⟩ rest
  | '[' :: rest => readClass frames latest ⟨false, [], false⟩ rest
  | '\x7b' :: rest => readGlob (⟨latest, []⟩ :: frames) [] (some '\x7b') rest
  | '\x7d' :: rest =>
    match frames with
    | [] => .error .unopenedAlternatives
    | frame :: outer =>
      let branches := (latest.reverse :: frame.finished).reverse
      readGlob outer (.alternatives branches :: frame.around) (some '\x7d') rest
  | ',' :: rest =>
    match frames with
    | [] => readGlob [] (.literal ',' :: latest) (some ',') rest
    | frame :: outer =>
      let frame := { frame with finished := latest.reverse :: frame.finished }
      readGlob (frame :: outer) [] (some ',') rest
  | '\\' :: [] => .error .danglingEscape
  | '\\' :: c :: rest => readGlob frames (.literal c :: latest) (some c) rest
  | c :: rest => readGlob frames (.literal c :: latest) (some c) rest

/-- Reads the rest of a class and of the pattern behind it. A class is not empty: its first
character always belongs to it. -/
def readClass (frames : List GlobFrame) (latest : List GlobToken) (state : ClassState) :
    List Char → Except GlobProblem (List GlobToken)
  | [] => .error .unclosedClass
  | c :: rest =>
    if c == ']' && !state.ranges.isEmpty then
      readGlob frames (state.token :: latest) (some ']') rest
    else if c == '-' && !state.ranges.isEmpty && !state.hyphen then
      readClass frames latest { state with hyphen := true } rest
    else
      match state.add c with
      | .error problem => .error problem
      | .ok state => readClass frames latest state rest

end

def parseGlob (pattern : String) : Except GlobProblem (List GlobToken) :=
  readGlob [] [] none pattern.toList

end InterpolationLint
