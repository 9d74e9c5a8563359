import InterpolationLint.Scan.Lexeme

/-!
# Text inside an interpolated string

What stands at a place between the quotes of an interpolated string: text of some length, a hole,
the closing quotes, or the end of a string that is not closed. In a raw string the surplus of a run
of braces or quotes is text, so that the innermost braces open the hole and the last quotes close
the string.
-/

namespace InterpolationLint

inductive StringPart where
  | text (length : Nat)
  | hole
  | close
  | broken
deriving DecidableEq, Repr

/-- A run in a raw string: too short and it is text, exact and it means `part`, and what exceeds
`needed` is text before it. -/
def StringPart.ofRun (run needed : Nat) (part : StringPart) : StringPart :=
  if run < needed then .text run
  else if run = needed then part
  else .text (run - needed)

def StringPart.read : StringKind → List Char → StringPart
  | _, [] => .broken
  | .regular, '\\' :: [] => .broken
  | .regular, '\\' :: _ :: _ => .text 2
  | .regular, '\n' :: _ => .broken
  | .verbatim, '"' :: '"' :: _ => .text 2
  | .raw dollars quotes, c :: rest =>
    if c == '"' then .ofRun (runLength '"' (c :: rest)) quotes .close
    else if c == '\x7b' then .ofRun (runLength '\x7b' (c :: rest)) dollars .hole
    else .text 1
  | _, '"' :: _ => .close
  | _, '\x7b' :: '\x7b' :: _ => .text 2
  | _, '\x7d' :: '\x7d' :: _ => .text 2
  | _, '\x7b' :: _ => .hole
  | _, _ :: _ => .text 1

end InterpolationLint
