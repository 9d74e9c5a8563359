import InterpolationLint.NameMap
import InterpolationLint.Proofs.Except
import InterpolationLint.Proofs.Suppression.Site
import InterpolationLint.Report.Record
import InterpolationLint.Report.Sarif

/-!
# Reading reports

Reports lose nothing. The JSON value of a report is read back to the same record, and a record tells
the outcome it was made of. The results in the SARIF format are the same violations once more.
-/

namespace InterpolationLint

/-! ## Reading values -/

namespace JsonValue

section
variable {α : Type}

def text? : JsonValue → Option String
  | text s => some s
  | _ => none

def number? : JsonValue → Option Nat
  | number n => some n
  | _ => none

def listOf? (read : JsonValue → Option α) : JsonValue → Option (List α)
  | list items => items.mapM read
  | _ => none

def valuesOf (name : String) (fields : List (String × JsonValue)) : List JsonValue :=
  (fields.filter (·.1 = name)).map Prod.snd

/-- A field that is there once. What other fields there are does not matter. -/
def field? (value : JsonValue) (name : String) (read : JsonValue → Option α) : Option α :=
  match value with
  | object fields =>
    match valuesOf name fields with
    | [found] => read found
    | _ => none
  | _ => none

/-- A field that may be left out for what is `usual`, but is not there twice. -/
def fieldOr? (value : JsonValue) (name : String) (usual : α) (read : JsonValue → Option α) :
    Option α :=
  match value with
  | object fields =>
    match valuesOf name fields with
    | [] => some usual
    | [found] => read found
    | _ => none
  | _ => none

end

/-- Numbers by their names. The last one with a name counts. -/
def numbers? : JsonValue → Option (NameMap Nat)
  | object fields => do
    return .ofList (← fields.mapM fun (name, value) => value.number?.map (name, ·))
  | _ => none

end JsonValue

open JsonValue

def ViolationRecord.ofJson? (value : JsonValue) : Option ViolationRecord := do
  let rule ← value.field? "rule" text?
  let severity ← value.field? "severity" text?
  let file ← value.field? "file" text?
  let line ← value.field? "line" number?
  let column ← value.field? "column" number?
  let endLine ← value.field? "end_line" number?
  let endColumn ← value.field? "end_column" number?
  let message ← value.field? "message" text?
  return { rule, severity, file, line, column, endLine, endColumn, message }

def SuppressionRecord.ofJson? (value : JsonValue) : Option SuppressionRecord := do
  let rule ← value.field? "rule" text?
  let reason ← value.fieldOr? "reason" "" text?
  let file ← value.field? "file" text?
  let line ← value.field? "line" number?
  let kind ← value.field? "type" text?
  return { rule, reason, file, line, kind }

def SuppressedRecord.ofJson? (value : JsonValue) : Option SuppressedRecord := do
  let violation ← value.field? "violation" ViolationRecord.ofJson?
  let suppression ← value.field? "suppression" SuppressionRecord.ofJson?
  return { violation, suppression }

def FailureRecord.ofJson? (value : JsonValue) : Option FailureRecord := do
  let file ← value.field? "file" text?
  let message ← value.field? "message" text?
  let line ← value.fieldOr? "line" none (·.number?.map some)
  let column ← value.fieldOr? "column" none (·.number?.map some)
  return { file, message, line, column }

def ReportRecord.ofJson? (value : JsonValue) : Option ReportRecord := do
  let version ← value.field? "version" text?
  let path ← value.field? "path" text?
  let config ← value.field? "config" text?
  let filesScanned ← value.field? "files_scanned" number?
  let violations ← value.field? "violations" (listOf? ViolationRecord.ofJson?)
  let suppressed ← value.fieldOr? "suppressed" [] (listOf? SuppressedRecord.ofJson?)
  let suppressedCount ← value.field? "suppressed_count" number?
  let counts ← value.field? "counts" numbers?
  let failures ← value.fieldOr? "failures" [] (listOf? FailureRecord.ofJson?)
  return { version, path, config, filesScanned, violations, suppressed, suppressedCount,
           counts := counts.entries, failures }

/-! ## What records say -/

def Scope.ofName? (text : String) : Option Scope :=
  [line, nextLine, file].find? (·.name = text)

def ViolationRecord.toViolation? (r : ViolationRecord) : Option Violation := do
  let rule ← Rule.ofName? r.rule
  let severity ← Severity.ofName? r.severity
  let location : Location := ⟨⟨r.line, r.column⟩, ⟨r.endLine, r.endColumn⟩⟩
  return { rule, message := r.message, severity, location, file := r.file }

def SuppressionRecord.toSuppression? (r : SuppressionRecord) : Option Suppression := do
  let scope ← Scope.ofName? r.kind
  return { rule := r.rule, reason := r.reason, file := r.file, line := r.line, scope }

def SuppressedRecord.toSuppressed? (r : SuppressedRecord) : Option SuppressedViolation := do
  let violation ← r.violation.toViolation?
  let suppression ← r.suppression.toSuppression?
  return { violation, suppression }

/-- A failure has a line and a column or neither. -/
def FailureRecord.toFailure? (r : FailureRecord) : Option FileFailure :=
  match r.line, r.column with
  | none, none => some ⟨r.file, r.message, none⟩
  | some line, some column => some ⟨r.file, r.message, some ⟨line, column⟩⟩
  | _, _ => none

def ReportRecord.toOutcome? (r : ReportRecord) : Option Outcome := do
  let violations ← r.violations.mapM (·.toViolation?)
  let suppressed ← r.suppressed.mapM (·.toSuppressed?)
  let failures ← r.failures.mapM (·.toFailure?)
  return { violations, suppressed, failures, scanned := r.filesScanned }

/-! ## Reading SARIF -/

def severityOfLevel (level : String) : String := if level = "note" then "info" else level

def ViolationRecord.ofSarif? (result : JsonValue) : Option ViolationRecord := do
  let rule ← result.field? "ruleId" text?
  let level ← result.field? "level" text?
  let message ← result.field? "message" (·.field? "text" text?)
  let [(file, line, column, endLine, endColumn)] ← result.field? "locations" <| listOf? fun place =>
    place.field? "physicalLocation" fun physical => do
      let file ← physical.field? "artifactLocation" (·.field? "uri" text?)
      physical.field? "region" fun region => do
        let line ← region.field? "startLine" number?
        let column ← region.field? "startColumn" number?
        let endLine ← region.field? "endLine" number?
        let endColumn ← region.field? "endColumn" number?
        return (file, line, column, endLine, endColumn)
    | none
  let severity := severityOfLevel level
  return { rule, severity, file, line, column, endLine, endColumn, message }

def sarifRecords? (report : JsonValue) : Option (List ViolationRecord) := do
  let runs ← report.field? "runs" <| listOf? fun run =>
    run.field? "results" (listOf? ViolationRecord.ofSarif?)
  return runs.flatten

/-! ## Values are read back -/

theorem listOf?_list {α : Type} {write : α → JsonValue} {read : JsonValue → Option α}
    (h : ∀ a, read (write a) = some a) (l : List α) :
    listOf? read (.list (l.map write)) = some l := mapM_map_of_left_inverse h l

theorem ViolationRecord.ofJson?_toJson (r : ViolationRecord) : ofJson? r.toJson = some r := by
  simp [ofJson?, toJson, field?, valuesOf, text?, number?]

theorem SuppressionRecord.ofJson?_toJson (r : SuppressionRecord) : ofJson? r.toJson = some r := by
  obtain ⟨rule, reason, file, line, kind⟩ := r
  by_cases hreason : reason = ""
  · simp [ofJson?, toJson, field?, fieldOr?, valuesOf, text?, number?, hreason]
  · simp [ofJson?, toJson, field?, fieldOr?, valuesOf, text?, number?, hreason]

theorem SuppressedRecord.ofJson?_toJson (r : SuppressedRecord) : ofJson? r.toJson = some r := by
  simp [ofJson?, toJson, field?, valuesOf, ViolationRecord.ofJson?_toJson,
    SuppressionRecord.ofJson?_toJson]

theorem FailureRecord.ofJson?_toJson (r : FailureRecord) : ofJson? r.toJson = some r := by
  obtain ⟨file, message, line, column⟩ := r
  cases line <;> cases column <;>
    simp [ofJson?, toJson, numberField, field?, fieldOr?, valuesOf, text?, number?]

theorem numbers?_object (numbers : List (String × Nat)) :
    numbers? (.object (numbers.map fun (name, n) => (name, .number n))) = some (.ofList numbers) := by
  have hread : (numbers.map fun (name, n) => (name, JsonValue.number n)).mapM
      (fun (name, value) => value.number?.map (name, ·)) = some numbers := by
    apply mapM_map_of_left_inverse
    intro entry
    rfl
  simp only [numbers?, hread, Option.bind_eq_bind, Option.bind_some]
  rfl

/-- A record whose counts are in the order of their names is read back from its value. -/
theorem ReportRecord.ofJson?_toJson {r : ReportRecord}
    (h : r.counts.Pairwise fun a b => a.1 < b.1) : ofJson? r.toJson = some r := by
  have hviolations := listOf?_list ViolationRecord.ofJson?_toJson r.violations
  have hsuppressed := listOf?_list SuppressedRecord.ofJson?_toJson r.suppressed
  have hfailures := listOf?_list FailureRecord.ofJson?_toJson r.failures
  have hcounts := numbers?_object r.counts
  have hentries := NameMap.entries_ofList h
  obtain ⟨version, path, config, scanned, violations, suppressed, count, counts, failures⟩ := r
  by_cases hs : suppressed = [] <;> by_cases hf : failures = [] <;>
    simp [ofJson?, toJson, listField, field?, fieldOr?, valuesOf, text?, number?, hviolations,
      hsuppressed, hfailures, hcounts, hentries, hs, hf]

/-! ## Outcomes are told -/

theorem Severity.ofName?_name (severity : Severity) :
    Severity.ofName? severity.name = some severity := by
  cases severity <;> decide

theorem Scope.ofName?_name (scope : Scope) : Scope.ofName? scope.name = some scope := by
  cases scope <;> decide

theorem ViolationRecord.toViolation?_ofViolation (v : Violation) :
    (ofViolation v).toViolation? = some v := by
  simp [toViolation?, ofViolation, Rule.ofName?_name, Severity.ofName?_name]

theorem SuppressionRecord.toSuppression?_ofSuppression (s : Suppression) :
    (ofSuppression s).toSuppression? = some s := by
  simp [toSuppression?, ofSuppression, Scope.ofName?_name]

theorem SuppressedRecord.toSuppressed?_ofSuppressed (s : SuppressedViolation) :
    (ofSuppressed s).toSuppressed? = some s := by
  simp [toSuppressed?, ofSuppressed, ViolationRecord.toViolation?_ofViolation,
    SuppressionRecord.toSuppression?_ofSuppression]

theorem FailureRecord.toFailure?_ofFailure (f : FileFailure) :
    (ofFailure f).toFailure? = some f := by
  obtain ⟨file, message, position⟩ := f
  cases position <;> rfl

theorem ReportRecord.toOutcome?_ofOutcome (path config : String) (outcome : Outcome) :
    (ofOutcome path config outcome).toOutcome? = some outcome := by
  simp only [toOutcome?, ofOutcome,
    mapM_map_of_left_inverse ViolationRecord.toViolation?_ofViolation,
    mapM_map_of_left_inverse SuppressedRecord.toSuppressed?_ofSuppressed,
    mapM_map_of_left_inverse FailureRecord.toFailure?_ofFailure]
  rfl

/-! ## Counts -/

namespace Outcome

theorem mem_counts {outcome : Outcome} {rule : Rule} {n : Nat} :
    (rule, n) ∈ outcome.counts ↔
      n = outcome.count rule ∧ ∃ v ∈ outcome.violations, v.rule = rule := by
  have hrule : rule ∈ Rule.all := by cases rule <;> decide
  have hoccurs : outcome.count rule ≠ 0 ↔ ∃ v ∈ outcome.violations, v.rule = rule := by
    simp [count]
  rw [← hoccurs, counts, List.mem_filter, List.mem_map]
  constructor
  · rintro ⟨⟨other, -, heq⟩, hn⟩
    obtain ⟨rfl, rfl⟩ := Prod.mk.inj heq
    exact ⟨rfl, by simpa using hn⟩
  · rintro ⟨rfl, hn⟩
    exact ⟨⟨rule, hrule, rfl⟩, by simpa using hn⟩

theorem counts_ascending (outcome : Outcome) :
    outcome.counts.Pairwise fun a b => a.1.name < b.1.name := by
  have hrules : Rule.all.Pairwise fun a b => a.name < b.name := by decide
  apply List.Pairwise.filter
  exact List.pairwise_map.mpr hrules

/-- Rules that do not occur add nothing. -/
theorem sum_counts_eq (outcome : Outcome) :
    (outcome.counts.map Prod.snd).sum = (Rule.all.map outcome.count).sum := by
  unfold counts
  induction Rule.all with
  | nil => rfl
  | cons rule rules ih =>
    by_cases hzero : outcome.count rule = 0
    · simp [hzero, ← ih]
    · simp [hzero, ← ih]

theorem sum_counts (outcome : Outcome) :
    (outcome.counts.map Prod.snd).sum = outcome.violations.length := by
  rw [sum_counts_eq]
  unfold count
  induction outcome.violations with
  | nil => rfl
  | cons v violations ih =>
    rw [List.length_cons, ← ih]
    cases hrule : v.rule <;> simp [Rule.all, hrule] <;> omega

end Outcome

/-! ## SARIF -/

theorem severityOfLevel_sarifLevel (severity : Severity) :
    severityOfLevel severity.sarifLevel = severity.name := by
  cases severity <;> decide

theorem ViolationRecord.ofSarif?_toSarif (v : Violation) :
    ofSarif? v.toSarif = some (ofViolation v) := by
  simp [ofSarif?, Violation.toSarif, Location.toSarif, sarifMessage, ofViolation, field?, valuesOf,
    listOf?, text?, number?, severityOfLevel_sarifLevel]

theorem sarifRecords?_toSarif (outcome : Outcome) :
    sarifRecords? outcome.toSarif = some (outcome.violations.map .ofViolation) := by
  have hresults := mapM_map_eq_some ViolationRecord.ofSarif?_toSarif outcome.violations
  simp [sarifRecords?, Outcome.toSarif, field?, valuesOf, listOf?, hresults]

/-! ## Reports -/

theorem ReportRecord.counts_ofOutcome_ascending (path config : String) (outcome : Outcome) :
    (ofOutcome path config outcome).counts.Pairwise fun a b => a.1 < b.1 :=
  List.pairwise_map.mpr outcome.counts_ascending

theorem ReportRecord.mem_counts_ofOutcome {path config name : String} {outcome : Outcome}
    {n : Nat} : (name, n) ∈ (ofOutcome path config outcome).counts ↔
      ∃ rule : Rule, name = rule.name ∧ n = outcome.count rule ∧
        ∃ v ∈ outcome.violations, v.rule = rule := by
  simp only [ofOutcome, List.mem_map, Prod.exists, Outcome.mem_counts, Prod.mk.injEq]
  constructor
  · rintro ⟨rule, _, ⟨rfl, hoccurs⟩, rfl, rfl⟩
    exact ⟨rule, rfl, rfl, hoccurs⟩
  · rintro ⟨rule, rfl, rfl, hoccurs⟩
    exact ⟨rule, _, ⟨rfl, hoccurs⟩, rfl, rfl⟩

/-- Both reports of an outcome can be read, and tell what it was. -/
theorem ReportRecord.ofOutcome_lossless (path config : String) (outcome : Outcome) :
    ofJson? (ofOutcome path config outcome).toJson = some (ofOutcome path config outcome) ∧
    (ofOutcome path config outcome).toOutcome? = some outcome ∧
    (ofOutcome path config outcome).suppressedCount =
      (ofOutcome path config outcome).suppressed.length ∧
    (∀ name n, (name, n) ∈ (ofOutcome path config outcome).counts ↔
      ∃ rule : Rule, name = rule.name ∧ n = outcome.count rule ∧
        ∃ v ∈ outcome.violations, v.rule = rule) ∧
    ((ofOutcome path config outcome).counts.map Prod.fst).Nodup ∧
    ((ofOutcome path config outcome).counts.map Prod.snd).sum = outcome.violations.length ∧
    sarifRecords? outcome.toSarif = some (ofOutcome path config outcome).violations ∧
    (sarifRecords? outcome.toSarif).bind (·.mapM (·.toViolation?)) = some outcome.violations := by
  have hascending := counts_ofOutcome_ascending path config outcome
  refine ⟨ofJson?_toJson hascending, toOutcome?_ofOutcome path config outcome, ?_,
    fun name n => mem_counts_ofOutcome, ?_, ?_, sarifRecords?_toSarif outcome, ?_⟩
  · simp [ofOutcome]
  · apply List.pairwise_map.mpr
    apply hascending.imp
    rintro a b hlt heq
    exact String.lt_irrefl _ (heq ▸ hlt)
  · have hsnd : (ofOutcome path config outcome).counts.map Prod.snd =
        outcome.counts.map Prod.snd := by simp [ofOutcome]
    rw [hsnd, outcome.sum_counts]
  · rw [sarifRecords?_toSarif, Option.bind_some]
    exact mapM_map_of_left_inverse ViolationRecord.toViolation?_ofViolation outcome.violations

end InterpolationLint
