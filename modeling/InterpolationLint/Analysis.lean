import InterpolationLint.Diagnostic.Basic
import InterpolationLint.Rule.Selection
import InterpolationLint.Tree.Nodes

/-!
# Analysis of a tree

One pass over a tree: its interpolated strings are located and checked, the selected rules look at
them, and the findings become diagnostics. A receiver may take the diagnostics one by one, for as
long as it wants more.
-/

namespace InterpolationLint

/-- The first malformed string is an error. -/
def checkNodes : List InterpolatedString → Except AnalysisError Unit
  | [] => .ok ()
  | node :: rest =>
    match node.fault? with
    | some fault => .error (.malformed node.id fault)
    | none => checkNodes rest

namespace SourceTree

def findings (tree : SourceTree) (rules : RuleSet) : List Finding :=
  rules.toList.flatMap (Rule.findings tree.nodes)

def analyze (tree : SourceTree) (rules : RuleSet) : Except AnalysisError (List Diagnostic) := do
  checkNodes tree.nodes
  Diagnostic.ofFindings tree.lines (tree.findings rules)

end SourceTree

/-- A receiver of diagnostics: on each it moves to a new state and says whether it took it. -/
structure Receiver (σ : Type) where
  accept : σ → Diagnostic → σ × Bool

namespace Receiver

/-- Hands over diagnostics until one is refused. The result is the last state and the number
taken. -/
def deliver {σ : Type} (receiver : Receiver σ) (state : σ) : List Diagnostic → σ × Nat
  | [] => (state, 0)
  | d :: rest =>
    match receiver.accept state d with
    | (next, false) => (next, 0)
    | (next, true) =>
      let (final, count) := receiver.deliver next rest
      (final, count + 1)

def collect : Receiver (List Diagnostic) where
  accept taken d := (taken ++ [d], true)

def closed : Receiver (List Diagnostic) where
  accept taken _ := (taken, false)

def limited (limit : Nat) : Receiver (List Diagnostic) where
  accept taken d := if taken.length < limit then (taken ++ [d], true) else (taken, false)

end Receiver

namespace SourceTree

/-- Offers the diagnostics of a tree to a receiver, which sees nothing if the analysis fails. The
result is the state of the receiver afterwards, and the number it has taken. -/
def offer {σ : Type} (tree : SourceTree) (rules : RuleSet) (receiver : Receiver σ) (state : σ) :
    σ × Except AnalysisError Nat :=
  match tree.analyze rules with
  | .error e => (state, .error e)
  | .ok diagnostics =>
    let (final, count) := receiver.deliver state diagnostics
    (final, .ok count)

/-- The same for a caller that has no use for the receiver of a failed analysis. -/
def analyzeInto {σ : Type} (tree : SourceTree) (rules : RuleSet) (receiver : Receiver σ)
    (state : σ) : Except AnalysisError (σ × Nat) :=
  match tree.offer rules receiver state with
  | (_, .error e) => .error e
  | (final, .ok count) => .ok (final, count)

end SourceTree

end InterpolationLint
