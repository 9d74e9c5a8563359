/-!
# Rules

The two rules, in order of precedence, with the texts that describe them, and the severities a
report can have.
-/

namespace InterpolationLint

/-- How serious a report is, from least to most. -/
inductive Severity where
  | info
  | warning
  | error
deriving DecidableEq, Repr

namespace Severity

def name : Severity → String
  | info => "info"
  | warning => "warning"
  | error => "error"

def rank : Severity → Nat
  | info => 0
  | warning => 1
  | error => 2

def atLeast (severity level : Severity) : Bool := level.rank ≤ severity.rank

/-- The severity of a name in any mix of letter case. No letter outside ASCII has a letter of one
of the three names as its lower case. -/
def ofName? (text : String) : Option Severity :=
  let name := String.ofList (text.toList.map Char.toLower)
  if name = "error" then some error
  else if name = "warning" then some warning
  else if name = "info" then some info
  else none

def unknownMessage (text : String) : String := s!"unknown severity: {text}"

end Severity

inductive Rule where
  /-- A dollar sign right before a hole. -/
  | dollarBrace
  /-- An interpolated string without holes. -/
  | unnecessaryInterpolation
deriving DecidableEq, Repr

structure RuleInfo where
  title : String
  message : String
  category : String
  severity : Severity
  description : String
  helpAnchor : String
deriving DecidableEq, Repr

namespace Rule

/-- All rules, in order of precedence. -/
def all : List Rule := [dollarBrace, unnecessaryInterpolation]

def name : Rule → String
  | dollarBrace => "DollarBrace"
  | unnecessaryInterpolation => "UnnecessaryInterpolation"

def ofName? (text : String) : Option Rule := all.find? (·.name = text)

def rank : Rule → Nat
  | dollarBrace => 0
  | unnecessaryInterpolation => 1

def info : Rule → RuleInfo
  | dollarBrace => {
      title := "Avoid $\x7b\x7d in interpolated strings"
      message := "Avoid using $\x7b\x7d in interpolated strings."
      category := "Usage"
      severity := .warning
      description :=
        "A '$' written directly before an interpolation hole is emitted as a literal dollar sign. "
          ++ "Interpolated strings only need the '$' prefix before the opening quote."
      helpAnchor := "#dollarbrace" }
  | unnecessaryInterpolation => {
      title := "Unnecessary interpolated string"
      message := "Avoid using an interpolated string where an equivalent literal string exists."
      category := "Usage"
      severity := .warning
      description :=
        "An interpolated string without any interpolation holes has the same value as a plain "
          ++ "string literal and should be written as one."
      helpAnchor := "#unnecessaryinterpolation" }

end Rule

end InterpolationLint
