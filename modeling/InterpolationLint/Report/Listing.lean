import InterpolationLint.Outcome.Basic
import InterpolationLint.Report.Style
import InterpolationLint.Text.Lines
import InterpolationLint.Text.Quoted
import InterpolationLint.Tool

/-!
# Reports for people

A listing for the terminal: a heading, a summary, the violations, the files that could not be
scanned, the suppressed violations and the number of violations of each rule. Also the table of
rules.
-/

namespace InterpolationLint

def pluralEnding (count : Nat) : String := if count = 1 then "" else "s"

def ruleColumn : Nat := 26

namespace Listing

section
variable (color : Bool)

def headingLines (path config : String) : List String :=
  ["",
   "  " ++ styled color [.bold, .cyan] toolName ++ " v" ++ toolVersion,
   "",
   "  " ++ styled color [.dimmed] "Scanning: " ++ path,
   "  " ++ styled color [.dimmed] "Config:   " ++ config,
   ""]

def summaryLines (outcome : Outcome) : List String :=
  let verdict :=
    if outcome.violations.isEmpty then styled color [.green] "✓ CLEAN"
    else styled color [.red] "✗ ISSUES"
  let scanned := s!"  {outcome.scanned} file{pluralEnding outcome.scanned} scanned"
  let suppressed :=
    if outcome.suppressed.isEmpty then ""
    else "  " ++ styled color [.dimmed] s!"({outcome.suppressed.length} suppressed)"
  ["  " ++ verdict ++ scanned ++ suppressed, ""]

def severityTag (severity : Severity) : String :=
  match severity with
  | .error => styled color [.red] "ERROR"
  | .warning => styled color [.yellow] "WARN "
  | .info => styled color [.blue] "INFO "

def positionSuffix (p : Position) : String := styled color [.dimmed] s!":{p.line}:{p.column}"

def ruleName (rule : Rule) : String := styled color [.dimmed] (padRight ruleColumn rule.name)

def violationLines (v : Violation) : List String :=
  ["    " ++ severityTag color v.severity ++ "    " ++ ruleName color v.rule
      ++ styled color [.blue] v.file ++ positionSuffix color v.location.start,
   "            " ++ v.message,
   ""]

def violationsLines (violations : List Violation) : List String :=
  if violations.isEmpty then []
  else
    ["  " ++ styled color [.bold] "Violations" ++ s!" ({violations.length}):", ""]
      ++ violations.flatMap (violationLines color) ++ [""]

def failureLine (f : FileFailure) : String :=
  "    " ++ styled color [.blue] f.file ++ (f.position.map (positionSuffix color)).getD ""
    ++ "  " ++ styled color [.dimmed] f.message

def failuresLines (failures : List FileFailure) : List String :=
  if failures.isEmpty then []
  else
    ["  " ++ styled color [.bold, .yellow] "Not scanned" ++ s!" ({failures.length}):"]
      ++ failures.map (failureLine color) ++ [""]

def suppressedEntryLines (s : SuppressedViolation) : List String :=
  let place :=
    if s.suppression.scope = .file then styled color [.dimmed] ":* (file)"
    else positionSuffix color s.violation.location.start
  let entry := "    " ++ ruleName color s.violation.rule
    ++ styled color [.blue] s.violation.file ++ place
  let reason :=
    if s.suppression.reason.isEmpty then []
    else ["            " ++ styled color [.dimmed] ("reason: " ++ quoted s.suppression.reason)]
  entry :: reason

def suppressedLines (suppressed : List SuppressedViolation) (details : Bool) : List String :=
  if suppressed.isEmpty then []
  else
    let title := "  " ++ styled color [.dimmed] "Suppressed" ++ s!" ({suppressed.length}):"
    let body :=
      if details then "" :: suppressed.flatMap (suppressedEntryLines color)
      else ["    " ++ styled color [.dimmed] "(use --show-suppressed to see details)"]
    title :: body ++ [""]

def breakdownLine (rule : Rule) (count : Nat) : String :=
  s!"    {padRight ruleColumn rule.name} {count} violation{pluralEnding count}"

def breakdownLines (outcome : Outcome) : List String :=
  if outcome.violations.isEmpty then []
  else
    ("  " ++ styled color [.bold] "Breakdown:")
      :: outcome.counts.map (fun (rule, count) => breakdownLine rule count) ++ [""]

def ruleLines (rule : Rule) : List String :=
  let info := rule.info
  ["  " ++ styled color [.bold, .cyan] rule.name ++ "  "
      ++ styled color [.dimmed] s!"[{info.category}, {info.severity.name}]",
   "    " ++ info.message,
   "    " ++ styled color [.dimmed] info.description,
   ""]

end

end Listing

open Listing in
def listingReport (color : Bool) (path config : String) (outcome : Outcome)
    (showSuppressed : Bool) : String :=
  unlines <| headingLines color path config ++ summaryLines color outcome
    ++ violationsLines color outcome.violations ++ failuresLines color outcome.failures
    ++ suppressedLines color outcome.suppressed showSuppressed ++ breakdownLines color outcome

def ruleTable (color : Bool) : String :=
  unlines ("" :: Rule.all.flatMap (Listing.ruleLines color))

end InterpolationLint
