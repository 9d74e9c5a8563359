import InterpolationLint.Outcome.Violation
import InterpolationLint.Suppression.Comment
import InterpolationLint.Text.Lines

/-!
# Suppressions

What the directives of a file suppress. A line gives at most one suppression, and depends on the
lines before it only through one bit: whether all of them, and the line itself, belong to the
header of the file.
-/

namespace InterpolationLint

inductive Scope where
  | line
  | nextLine
  | file
deriving DecidableEq, Repr

def Scope.name : Scope → String
  | line => "line"
  | nextLine => "nextline"
  | file => "file"

structure Suppression where
  /-- The name of a rule, or `*` for every rule. -/
  rule : String
  reason : String
  file : String
  /-- The line of the directive, zero for a whole file. -/
  line : Nat
  scope : Scope
deriving DecidableEq, Repr

/-- A directive for a whole file stands in the header, or on one of the first lines. -/
def lastFileDirectiveLine : Nat := 10

def isHeaderLine (line : List Char) : Bool :=
  match trim (line.dropWhile (· == byteOrderMark)) with
  | [] => true
  | '/' :: '/' :: _ => true
  | '/' :: '*' :: _ => true
  | '*' :: _ => true
  | _ => false

/-- What a directive covers. A plain `ignore` covers its own line if something stands before it
there, and else the next one. -/
def DirectiveComment.scope (d : DirectiveComment) : Scope :=
  match d.keyword with
  | .ignoreFile => .file
  | .ignoreNextLine => .nextLine
  | .ignore => if (trim d.before).isEmpty then .nextLine else .line

namespace Suppression

def ofDirective? (file : String) (number : Nat) (header : Bool) (d : DirectiveComment) :
    Option Suppression :=
  if d.keyword = .ignoreFile ∧ !header ∧ lastFileDirectiveLine < number then none
  else some {
    rule := String.ofList d.rule
    reason := String.ofList d.reason
    file
    line := if d.scope = .file then 0 else number
    scope := d.scope }

def ofLine? (file : String) (number : Nat) (header : Bool) (line : List Char) :
    Option Suppression :=
  ((lineDirective? line).bind (ofDirective? file number header)).or
    ((blockDirective? line).bind (ofDirective? file number header))

def ofLines (file : String) : Nat → Bool → List (List Char) → List Suppression
  | _, _, [] => []
  | number, header, line :: rest =>
    let header := header && isHeaderLine line
    (ofLine? file number header line).toList ++ ofLines file (number + 1) header rest

def ofChars (file : String) (content : List Char) : List Suppression :=
  ofLines file 1 true (splitLines content)

def ofSource (file content : String) : List Suppression := ofChars file content.toList

def coversRule (s : Suppression) (rule : Rule) : Bool :=
  s.rule == "*" || Rule.ofName? s.rule == some rule

def coversLine (s : Suppression) (line : Nat) : Bool :=
  match s.scope with
  | .file => true
  | .line => line == s.line
  | .nextLine => line == s.line + 1

def covers (s : Suppression) (v : Violation) : Bool :=
  v.file == s.file && s.coversRule v.rule && s.coversLine v.line

end Suppression

structure SuppressedViolation where
  violation : Violation
  suppression : Suppression
deriving DecidableEq, Repr

def activeViolations (suppressions : List Suppression) (violations : List Violation) :
    List Violation :=
  violations.filter fun v => !suppressions.any (·.covers v)

/-- The violations that are covered, each with the first suppression that covers it. -/
def suppressedViolations (suppressions : List Suppression) (violations : List Violation) :
    List SuppressedViolation :=
  violations.filterMap fun v => (suppressions.find? (·.covers v)).map fun s => ⟨v, s⟩

end InterpolationLint
