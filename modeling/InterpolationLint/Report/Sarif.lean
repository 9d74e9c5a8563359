import InterpolationLint.Json.Basic
import InterpolationLint.Outcome.Basic
import InterpolationLint.Tool

/-!
# Reports in the SARIF format

The interchange format for results of static analysis. Every rule is listed, so that a reader of
the report can show its help even if it has no result.
-/

namespace InterpolationLint

def sarifVersion : String := "2.1.0"

def sarifSchema : String :=
  "https://raw.githubusercontent.com/oasis-tcs/sarif-spec/master/Schemata/sarif-schema-2.1.0.json"

def Severity.sarifLevel : Severity → String
  | error => "error"
  | warning => "warning"
  | info => "note"

def sarifMessage (text : String) : JsonValue := .object [("text", .text text)]

def Rule.toSarif (rule : Rule) : JsonValue :=
  .object [
    ("id", .text rule.name),
    ("name", .text rule.name),
    ("shortDescription", sarifMessage rule.info.title),
    ("fullDescription", sarifMessage rule.info.description),
    ("helpUri", .text (toolHome ++ rule.info.helpAnchor)),
    ("defaultConfiguration", .object [("level", .text rule.info.severity.sarifLevel)])]

def Location.toSarif (l : Location) : JsonValue :=
  .object [
    ("startLine", .number l.start.line),
    ("startColumn", .number l.start.column),
    ("endLine", .number l.stop.line),
    ("endColumn", .number l.stop.column)]

def Violation.toSarif (v : Violation) : JsonValue :=
  .object [
    ("ruleId", .text v.rule.name),
    ("level", .text v.severity.sarifLevel),
    ("message", sarifMessage v.message),
    ("locations", .list [
      .object [("physicalLocation", .object [
        ("artifactLocation", .object [("uri", .text v.file)]),
        ("region", v.location.toSarif)])]])]

def Outcome.toSarif (outcome : Outcome) : JsonValue :=
  .object [
    ("version", .text sarifVersion),
    ("$schema", .text sarifSchema),
    ("runs", .list [.object [
      ("tool", .object [("driver", .object [
        ("name", .text toolName),
        ("version", .text toolVersion),
        ("informationUri", .text toolHome),
        ("rules", .list (Rule.all.map Rule.toSarif))])]),
      ("results", .list (outcome.violations.map Violation.toSarif))]])]

def sarifReport (outcome : Outcome) : String := outcome.toSarif.render 0 ++ "\n"

end InterpolationLint
