import InterpolationLint.Run
import InterpolationLint.Proofs.Scan.Failure
import InterpolationLint.Proofs.Text.Location
import Mathlib.Algebra.Ring.Nat

/-!
# Files that cannot be scanned

A file that cannot be scanned is recorded in the outcome of a run with the position of its failure,
which is always in the text.
-/

namespace InterpolationLint

/-! ## One source -/

theorem SourceTree.position_of_failure {source : String} {failure : ScanFailure}
    (h : SourceTree.ofSource source = .error failure) :
    (LineIndex.ofText source).position failure.offset =
      .ok ((LineIndex.ofText source).place failure.offset) :=
  LineIndex.position_eq_place (Nat.le_of_lt (SourceTree.failure_pointsInto h).offset_lt)

theorem checkSource_of_failure {source : String} {failure : ScanFailure}
    (h : SourceTree.ofSource source = .error failure) (rules : RuleSet) (file : String) :
    checkSource rules file source = .ok { Outcome.empty with
      failures := [⟨file, failure.message, some ((LineIndex.ofText source).place failure.offset)⟩]
      scanned := 1 } := by
  unfold checkSource
  rw [h]
  dsimp only
  rw [SourceTree.position_of_failure h]
  rfl

theorem mem_failures_checkSource {rules : RuleSet} {file source : String} {outcome : Outcome}
    {recorded : FileFailure} (h : checkSource rules file source = .ok outcome)
    (hmem : recorded ∈ outcome.failures) :
    ∃ failure, SourceTree.ofSource source = .error failure ∧
      recorded =
        ⟨file, failure.message, some ((LineIndex.ofText source).place failure.offset)⟩ := by
  cases hscan : SourceTree.ofSource source with
  | error failure =>
    rw [checkSource_of_failure hscan] at h
    cases h
    exact ⟨failure, rfl, List.mem_singleton.mp hmem⟩
  | ok tree =>
    unfold checkSource at h
    rw [hscan] at h
    obtain ⟨diagnostics, -, h⟩ := bind_eq_ok h
    cases h
    cases hmem

/-! ## Many files -/

theorem foldl_merge (outcomes : List Outcome) (before : Outcome) :
    outcomes.foldl Outcome.merge before =
      ⟨before.violations ++ outcomes.flatMap (·.violations),
        before.suppressed ++ outcomes.flatMap (·.suppressed),
        before.failures ++ outcomes.flatMap (·.failures),
        before.scanned + (outcomes.map (·.scanned)).sum⟩ := by
  induction outcomes generalizing before with
  | nil => simp
  | cons outcome outcomes ih => simp [ih, Outcome.merge, Nat.add_assoc]

theorem FileTree.mem_failures_run {tree : FileTree} {base : String} {rules : RuleSet}
    {paths : List String} {outcome : Outcome} (h : tree.run base rules paths = .ok outcome)
    {recorded : FileFailure} (hmem : recorded ∈ outcome.failures) :
    ∃ path ∈ paths, ∃ source failure, tree.readText path = .ok source ∧
      SourceTree.ofSource source = .error failure ∧ recorded = ⟨shownPath base path,
        failure.message, some ((LineIndex.ofText source).place failure.offset)⟩ := by
  obtain ⟨outcomes, houtcomes, h⟩ := bind_eq_ok h
  cases h
  simp only [Outcome.sort, List.mem_mergeSort, foldl_merge, Outcome.empty,
    List.nil_append, List.mem_flatMap] at hmem
  obtain ⟨one, hone, hmem⟩ := hmem
  obtain ⟨path, hpath, hcheck⟩ := mem_of_mapM_eq_ok houtcomes one hone
  unfold FileTree.checkFile at hcheck
  dsimp only at hcheck
  cases hread : tree.readText path with
  | error cause =>
    rw [hread] at hcheck
    cases hcheck
  | ok source =>
    rw [hread] at hcheck
    dsimp only at hcheck
    cases hsource : checkSource rules (shownPath base path) source with
    | error cause =>
      rw [hsource] at hcheck
      cases hcheck
    | ok checked =>
      rw [hsource] at hcheck
      cases hcheck
      obtain ⟨failure, hfailure, hrecorded⟩ := mem_failures_checkSource hsource hmem
      exact ⟨path, hpath, source, failure, hread, hfailure, hrecorded⟩

/-- What cannot be scanned is reported where it begins to go wrong. The offset is in the text, the
characters there are those of the problem, and every failure that a run records has a position. -/
theorem failures_point_at_culprit :
    (∀ source failure, SourceTree.ofSource source = .error failure →
      failure.offset < source.length ∧
      failure.problem.Begins (source.toList.drop failure.offset) ∧
      ∃ position, (LineIndex.ofText source).position failure.offset = .ok position ∧
        ∀ rules file, checkSource rules file source = .ok { Outcome.empty with
          failures := [⟨file, failure.message, some position⟩], scanned := 1 }) ∧
    ∀ (tree : FileTree) base rules paths outcome, tree.run base rules paths = .ok outcome →
      ∀ recorded ∈ outcome.failures, ∃ path ∈ paths, ∃ source failure position,
        tree.readText path = .ok source ∧ SourceTree.ofSource source = .error failure ∧
        (LineIndex.ofText source).position failure.offset = .ok position ∧
        recorded = ⟨shownPath base path, failure.message, some position⟩ := by
  constructor
  · intro source failure h
    have hpoints := SourceTree.failure_pointsInto h
    refine ⟨?_, hpoints, _, SourceTree.position_of_failure h, checkSource_of_failure h⟩
    rw [← String.length_toList]
    exact hpoints.offset_lt
  · intro tree base rules paths outcome h recorded hmem
    obtain ⟨path, hpath, source, failure, hread, hfailure, hrecorded⟩ :=
      FileTree.mem_failures_run h hmem
    exact ⟨path, hpath, source, failure, _, hread, hfailure,
      SourceTree.position_of_failure hfailure, hrecorded⟩

/-- A backslash that ends the text behind an opening marker, and a file with a bracket that nothing
closes. -/
theorem failures_at_end_of_text :
    ((∃ position, (LineIndex.ofText "a $\"\\").position 2 = .ok position) ∧
      ScanProblem.unterminatedString.Begins ("a $\"\\".toList.drop 2)) ∧
    ∃ tree outcome, tree = (FileTree.bare []).put ["a.cs"] (.file "x\n(".toUTF8) ∧
      tree.run "/" .all ["/a.cs"] = .ok outcome ∧ outcome.failures.length = 1 ∧
      ∀ recorded ∈ outcome.failures, ∃ position, recorded.position = some position := by
  obtain ⟨-, hbegins, position, hposition, -⟩ :=
    failures_point_at_culprit.1 "a $\"\\" ⟨.unterminatedString, 2⟩ (by rfl)
  obtain ⟨outcome, hrun, hlength⟩ : ∃ outcome,
      ((FileTree.bare []).put ["a.cs"] (.file "x\n(".toUTF8)).run "/" .all ["/a.cs"] =
        .ok outcome ∧ outcome.failures.length = 1 := by
    refine ⟨_, rfl, ?_⟩
    simp only [Outcome.sort, List.length_mergeSort]
    rfl
  refine ⟨⟨⟨position, hposition⟩, hbegins⟩, _, outcome, rfl, hrun, hlength, ?_⟩
  intro recorded hmem
  obtain ⟨_, _, _, _, position, _, _, _, hrecorded⟩ :=
    failures_point_at_culprit.2 _ _ _ _ outcome hrun recorded hmem
  exact ⟨position, by rw [hrecorded]⟩

end InterpolationLint
