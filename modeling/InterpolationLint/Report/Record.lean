import InterpolationLint.Json.Basic
import InterpolationLint.Outcome.Basic
import InterpolationLint.Tool

/-!
# Reports as records

The report for other programs: an outcome with its path and config, as a record of plain texts and
numbers, and that record as a JSON value. Empty lists and reasons and missing positions are left
out.
-/

namespace InterpolationLint

structure ViolationRecord where
  rule : String
  severity : String
  file : String
  line : Nat
  column : Nat
  endLine : Nat
  endColumn : Nat
  message : String
deriving DecidableEq, Repr

structure SuppressionRecord where
  rule : String
  reason : String
  file : String
  line : Nat
  kind : String
deriving DecidableEq, Repr

structure SuppressedRecord where
  violation : ViolationRecord
  suppression : SuppressionRecord
deriving DecidableEq, Repr

structure FailureRecord where
  file : String
  message : String
  line : Option Nat
  column : Option Nat
deriving DecidableEq, Repr

structure ReportRecord where
  version : String
  path : String
  config : String
  filesScanned : Nat
  violations : List ViolationRecord
  suppressed : List SuppressedRecord
  suppressedCount : Nat
  counts : List (String × Nat)
  failures : List FailureRecord
deriving DecidableEq, Repr

/-! ## Records of outcomes -/

def ViolationRecord.ofViolation (v : Violation) : ViolationRecord where
  rule := v.rule.name
  severity := v.severity.name
  file := v.file
  line := v.location.start.line
  column := v.location.start.column
  endLine := v.location.stop.line
  endColumn := v.location.stop.column
  message := v.message

def SuppressionRecord.ofSuppression (s : Suppression) : SuppressionRecord where
  rule := s.rule
  reason := s.reason
  file := s.file
  line := s.line
  kind := s.scope.name

def SuppressedRecord.ofSuppressed (s : SuppressedViolation) : SuppressedRecord :=
  ⟨.ofViolation s.violation, .ofSuppression s.suppression⟩

def FailureRecord.ofFailure (f : FileFailure) : FailureRecord where
  file := f.file
  message := f.message
  line := f.position.map (·.line)
  column := f.position.map (·.column)

def ReportRecord.ofOutcome (path config : String) (outcome : Outcome) : ReportRecord where
  version := toolVersion
  path := path
  config := config
  filesScanned := outcome.scanned
  violations := outcome.violations.map .ofViolation
  suppressed := outcome.suppressed.map .ofSuppressed
  suppressedCount := outcome.suppressed.length
  counts := outcome.counts.map fun (rule, count) => (rule.name, count)
  failures := outcome.failures.map .ofFailure

/-! ## JSON values of records -/

def listField {α : Type} (name : String) (xs : List α) (f : α → JsonValue) :
    List (String × JsonValue) :=
  if xs.isEmpty then [] else [(name, .list (xs.map f))]

def numberField (name : String) (n : Option Nat) : List (String × JsonValue) :=
  match n with
  | none => []
  | some n => [(name, .number n)]

def ViolationRecord.toJson (v : ViolationRecord) : JsonValue :=
  .object [
    ("rule", .text v.rule),
    ("severity", .text v.severity),
    ("file", .text v.file),
    ("line", .number v.line),
    ("column", .number v.column),
    ("end_line", .number v.endLine),
    ("end_column", .number v.endColumn),
    ("message", .text v.message)]

def SuppressionRecord.toJson (s : SuppressionRecord) : JsonValue :=
  .object (("rule", .text s.rule)
    :: (if s.reason.isEmpty then [] else [("reason", .text s.reason)])
    ++ [("file", .text s.file), ("line", .number s.line), ("type", .text s.kind)])

def SuppressedRecord.toJson (s : SuppressedRecord) : JsonValue :=
  .object [("violation", s.violation.toJson), ("suppression", s.suppression.toJson)]

def FailureRecord.toJson (f : FailureRecord) : JsonValue :=
  .object ([("file", .text f.file), ("message", .text f.message)]
    ++ numberField "line" f.line ++ numberField "column" f.column)

def ReportRecord.toJson (r : ReportRecord) : JsonValue :=
  .object ([
      ("version", .text r.version),
      ("path", .text r.path),
      ("config", .text r.config),
      ("files_scanned", .number r.filesScanned),
      ("violations", .list (r.violations.map (·.toJson)))]
    ++ listField "suppressed" r.suppressed (·.toJson)
    ++ [("suppressed_count", .number r.suppressedCount),
      ("counts", .object (r.counts.map fun (name, count) => (name, .number count)))]
    ++ listField "failures" r.failures (·.toJson))

def recordReport (path config : String) (outcome : Outcome) : String :=
  (ReportRecord.ofOutcome path config outcome).toJson.render 0 ++ "\n"

end InterpolationLint
