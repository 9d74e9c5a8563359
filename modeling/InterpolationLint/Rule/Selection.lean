import InterpolationLint.Rule.Basic

/-!
# Selections of rules

Which rules run.
-/

namespace InterpolationLint

structure RuleSet where
  dollarBrace : Bool
  unnecessaryInterpolation : Bool
deriving DecidableEq, Repr

namespace RuleSet

def all : RuleSet := ⟨true, true⟩

def empty : RuleSet := ⟨false, false⟩

instance : Inhabited RuleSet := ⟨all⟩

def set (rules : RuleSet) (rule : Rule) (on : Bool) : RuleSet :=
  match rule with
  | .dollarBrace => { rules with dollarBrace := on }
  | .unnecessaryInterpolation => { rules with unnecessaryInterpolation := on }

def has (rules : RuleSet) : Rule → Bool
  | .dollarBrace => rules.dollarBrace
  | .unnecessaryInterpolation => rules.unnecessaryInterpolation

def toList (rules : RuleSet) : List Rule := Rule.all.filter rules.has

def ofList (rules : List Rule) : RuleSet := rules.foldl (·.set · true) empty

end RuleSet

end InterpolationLint
