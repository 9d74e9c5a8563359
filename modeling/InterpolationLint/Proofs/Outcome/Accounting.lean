import InterpolationLint.Proofs.Outcome.Files
import Mathlib.Data.List.Nodup

/-!
# What a run accounts for

When the names of all files differ, the entries of a run that name one file are those of that file
alone, in the order in which they were found. So nothing is lost or recorded twice, and the entries
stand in the order of their names and positions, whatever the comparison of the sort looks at.
-/

namespace InterpolationLint

/-! ## Order by file -/

/-- By file, and by position in a file. -/
def Violation.Before (v w : Violation) : Prop :=
  v.file < w.file ∨ v.file = w.file ∧ v.location.start.Before w.location.start

section
variable {β : Type} {file : β → String} {l : List β}

/-- A list in the order of files is ordered as each of its files is. -/
theorem pairwise_by_file {R : β → β → Prop}
    (hfiles : l.Pairwise fun a b => file a < file b ∨ file a = file b)
    (h : ∀ b ∈ l, (l.filter (file · = file b)).Pairwise R) :
    l.Pairwise fun a b => file a < file b ∨ file a = file b ∧ R a b := by
  apply List.pairwise_iff_forall_sublist.mpr
  intro a b hab
  rcases List.pairwise_iff_forall_sublist.mp hfiles hab with hlt | heq
  · exact .inl hlt
  · have hb : b ∈ l := hab.subset (List.mem_cons_of_mem a List.mem_cons_self)
    have hboth : [a, b].Sublist (l.filter (file · = file b)) := by
      simpa [heq] using hab.filter (file · = file b)
    exact .inr ⟨heq, List.pairwise_iff_forall_sublist.mp (h b hb) hboth⟩

theorem filter_sortBy_flatMap {α : Type} {cmp : β → β → Ordering} [Std.TransCmp cmp] {xs : List α}
    {name : α → String} {entries : α → List β}
    (hfile : ∀ x ∈ xs, ∀ b ∈ entries x, file b = name x) (hnames : (xs.map name).Nodup) {x : α}
    (hx : x ∈ xs) (hsorted : (entries x).Pairwise fun a b => (cmp a b).isLE = true) :
    (sortBy cmp (xs.flatMap entries)).filter (file · = name x) = entries x := by
  rw [filter_sortBy, filter_flatMap_file hfile hnames hx]
  exact List.mergeSort_of_pairwise hsorted

end

/-! ## The entries of one file -/

structure Outcome.Holds (outcome : Outcome) (file : String) (one : Outcome) : Prop where
  violations : outcome.violations.filter (·.file = file) = one.violations
  suppressed : outcome.suppressed.filter (·.violation.file = file) = one.suppressed
  failures : outcome.failures.filter (·.file = file) = one.failures

namespace FileTree

variable {tree : FileTree} {base : String} {rules : RuleSet} {paths : List String}
  {outcome : Outcome} (hreadable : ∀ path ∈ paths, tree.Readable path)
  (hrun : tree.run base rules paths = .ok outcome)
include hreadable hrun

theorem run_entries :
    (∀ v ∈ outcome.violations, ∃ path ∈ paths, v ∈ (tree.outcomeAt base rules path).violations) ∧
    (∀ s ∈ outcome.suppressed, ∃ path ∈ paths, s ∈ (tree.outcomeAt base rules path).suppressed) ∧
    (∀ f ∈ outcome.failures, ∃ path ∈ paths, f ∈ (tree.outcomeAt base rules path).failures) ∧
    outcome.scanned = paths.length := by
  rw [run_eq base rules hreadable] at hrun
  cases hrun
  simp [Outcome.sort_eq, (sortBy_perm _ _).mem_iff]

theorem run_holds (hnames : (paths.map (shownPath base)).Nodup) {path : String}
    (hpath : path ∈ paths) :
    outcome.Holds (shownPath base path) (tree.outcomeAt base rules path) := by
  have hof := fun path hpath => outcomeAt_ofFile base rules (hreadable path hpath)
  have hone := hof path hpath
  rw [run_eq base rules hreadable] at hrun
  cases hrun
  constructor
  · refine filter_sortBy_flatMap (fun p hp => (hof p hp).violations) hnames hpath ?_
    refine hone.increasing.imp_of_mem ?_
    intro v w hv hw hvw
    have hsame : v.file = w.file := by rw [hone.violations v hv, hone.violations w hw]
    rw [Outcome.isLE_violationOrder_iff]
    refine .inr ⟨hsame, ?_⟩
    unfold Position.Before at hvw
    unfold Violation.line Violation.column
    omega
  · refine filter_sortBy_flatMap (fun p hp => (hof p hp).suppressed) hnames hpath ?_
    refine hone.suppressedIncreasing.imp_of_mem ?_
    intro s t hs ht _
    simp [Outcome.isLE_suppressedOrder_iff, hone.suppressed s hs, hone.suppressed t ht]
  · refine filter_sortBy_flatMap (fun p hp => (hof p hp).failures) hnames hpath ?_
    apply List.pairwise_iff_forall_sublist.mpr
    intro f g hfg
    have hf := hone.failures f (hfg.subset List.mem_cons_self)
    have hg := hone.failures g (hfg.subset (List.mem_cons_of_mem f List.mem_cons_self))
    simp [Outcome.isLE_failureOrder_iff, hf, hg]

theorem run_increasing (hnames : (paths.map (shownPath base)).Nodup) :
    outcome.violations.Pairwise Violation.Before ∧
      outcome.suppressed.Pairwise fun s t => s.violation.Before t.violation := by
  obtain ⟨hviolations, hsuppressed, -, -⟩ := run_entries hreadable hrun
  have hholds := fun path (hpath : path ∈ paths) => run_holds hreadable hrun hnames hpath
  have hof := fun path hpath => outcomeAt_ofFile base rules (hreadable path hpath)
  have hfiles : (outcome.violations.Pairwise fun v w => v.file < w.file ∨ v.file = w.file) ∧
      outcome.suppressed.Pairwise fun s t =>
        s.violation.file < t.violation.file ∨ s.violation.file = t.violation.file := by
    rw [run_eq base rules hreadable] at hrun
    cases hrun
    refine ⟨(sortBy_pairwise _).imp ?_, (sortBy_pairwise _).imp Outcome.isLE_suppressedOrder_iff.mp⟩
    intro v w hvw
    exact (Outcome.isLE_violationOrder_iff.mp hvw).imp_right And.left
  constructor
  · apply pairwise_by_file hfiles.1
    intro v hv
    obtain ⟨path, hpath, hmem⟩ := hviolations v hv
    rw [(hof path hpath).violations v hmem, (hholds path hpath).violations]
    exact (hof path hpath).increasing
  · apply pairwise_by_file hfiles.2
    intro s hs
    obtain ⟨path, hpath, hmem⟩ := hsuppressed s hs
    rw [(hof path hpath).suppressed s hmem, (hholds path hpath).suppressed]
    exact (hof path hpath).suppressedIncreasing

end FileTree

/-! ## What is recorded of a file -/

namespace Outcome

/-- A violation is recorded once: as it is, or with the first suppression that covers it. -/
def RecordsOnce (outcome : Outcome) (suppressions : List Suppression) (v : Violation) : Prop :=
  match suppressions.find? (·.covers v) with
  | none => outcome.violations.count v = 1 ∧ ∀ s ∈ outcome.suppressed, s.violation ≠ v
  | some suppression =>
    v ∉ outcome.violations ∧ outcome.suppressed.filter (·.violation = v) = [⟨v, suppression⟩]

/-- Of a file that cannot be scanned an outcome has one failure and nothing else. Of any other it
has no failure, each of its diagnostics once, and nothing else. -/
structure Accounts (outcome : Outcome) (rules : RuleSet) (file source : String) : Prop where
  unscanned : ∀ failure, SourceTree.ofSource source = .error failure →
    (∃ position, outcome.failures.filter (·.file = file) =
      [⟨file, failure.message, some position⟩]) ∧
    (∀ v ∈ outcome.violations, v.file ≠ file) ∧ ∀ s ∈ outcome.suppressed, s.violation.file ≠ file
  scanned : ∀ tree, SourceTree.ofSource source = .ok tree →
    (∀ f ∈ outcome.failures, f.file ≠ file) ∧
    ∃ diagnostics, tree.analyze rules = .ok diagnostics ∧
      (∀ d ∈ diagnostics, outcome.RecordsOnce (Suppression.ofSource file source)
        (Violation.ofDiagnostic file d)) ∧
      (∀ v ∈ outcome.violations, v.file = file →
        ∃ d ∈ diagnostics, v = Violation.ofDiagnostic file d) ∧
      ∀ s ∈ outcome.suppressed, s.violation.file = file →
        ∃ d ∈ diagnostics, s.violation = Violation.ofDiagnostic file d

end Outcome

theorem filter_suppressedViolations {suppressions : List Suppression} {violations : List Violation}
    {v : Violation} {s : Suppression} (hnodup : violations.Nodup) (hv : v ∈ violations)
    (hs : suppressions.find? (·.covers v) = some s) :
    (suppressedViolations suppressions violations).filter (·.violation = v) = [⟨v, s⟩] := by
  have honly : violations.filter (· = v) = [v] := by
    rw [List.filter_eq, List.count_eq_one_of_mem hnodup hv, List.replicate_one]
  have hcomm : (suppressedViolations suppressions violations).filter (·.violation = v) =
      suppressedViolations suppressions (violations.filter (· = v)) := by
    unfold suppressedViolations
    rw [List.filter_filterMap, List.filterMap_filter]
    apply List.filterMap_congr
    intro w _
    by_cases hw : w = v
    · simp [hw, hs]
    · cases suppressions.find? (·.covers w) <;> simp [hw]
  rw [hcomm, honly]
  simp [suppressedViolations, hs]

namespace Outcome.Holds

variable {outcome one : Outcome} {file : String} (h : outcome.Holds file one)
include h

theorem mem_violations {v : Violation} (hv : v.file = file) :
    v ∈ outcome.violations ↔ v ∈ one.violations := by
  rw [← h.violations]
  simp [hv]

theorem mem_suppressed {s : SuppressedViolation} (hs : s.violation.file = file) :
    s ∈ outcome.suppressed ↔ s ∈ one.suppressed := by
  rw [← h.suppressed]
  simp [hs]

theorem count_violations {v : Violation} (hv : v.file = file) :
    outcome.violations.count v = one.violations.count v := by
  rw [← h.violations, List.count_filter (by simpa using hv)]

theorem filter_suppressed {v : Violation} (hv : v.file = file) :
    outcome.suppressed.filter (·.violation = v) = one.suppressed.filter (·.violation = v) := by
  rw [← h.suppressed, List.filter_filter]
  apply List.filter_congr
  intro s _
  by_cases hs : s.violation = v <;> simp [hs, hv]

/-- What the directives of a file leave of its violations, and what they take, is all of them. -/
theorem recordsOnce {suppressions : List Suppression} {violations : List Violation}
    (hactive : one.violations = activeViolations suppressions violations)
    (hsuppressed : one.suppressed = suppressedViolations suppressions violations)
    (hnodup : violations.Nodup) {v : Violation} (hv : v ∈ violations) (hfile : v.file = file) :
    outcome.RecordsOnce suppressions v := by
  unfold RecordsOnce
  split
  case h_1 hnone =>
    have huncovered : ∀ s ∈ suppressions, s.covers v = false := by
      simpa using List.find?_eq_none.mp hnone
    constructor
    · rw [h.count_violations hfile, hactive]
      apply List.count_eq_one_of_mem (hnodup.filter _)
      simpa [activeViolations, hv] using huncovered
    · rintro s hs rfl
      rw [h.mem_suppressed hfile, hsuppressed, mem_suppressedViolations, hnone] at hs
      cases hs.2
  case h_2 suppression hsome =>
    constructor
    · rw [h.mem_violations hfile, hactive]
      intro hmem
      have hcovers := List.find?_some hsome
      have huncovered : ∀ s ∈ suppressions, s.covers v = false := by
        simpa using (List.mem_filter.mp hmem).2
      rw [huncovered suppression (List.mem_of_find?_eq_some hsome)] at hcovers
      cases hcovers
    · rw [h.filter_suppressed hfile, hsuppressed, filter_suppressedViolations hnodup hv hsome]

theorem accounts {rules : RuleSet} {source : String}
    (hcheck : checkSource rules file source = .ok one) : outcome.Accounts rules file source := by
  constructor
  · intro failure hfailure
    rw [checkSource_of_failure hfailure] at hcheck
    cases hcheck
    refine ⟨⟨_, h.failures⟩, ?_, ?_⟩
    · intro v hv hfile
      simpa [Outcome.empty] using (h.mem_violations hfile).mp hv
    · intro s hs hfile
      simpa [Outcome.empty] using (h.mem_suppressed hfile).mp hs
  · intro tree htree
    obtain ⟨diagnostics, hanalyze, hincreasing, hone⟩ := checkSource_of_tree htree rules file
    rw [hone] at hcheck
    cases hcheck
    have hnodup : (diagnostics.map (Violation.ofDiagnostic file)).Nodup := by
      apply List.pairwise_map.mpr
      refine hincreasing.imp ?_
      intro d e hde heq
      apply hde.ne
      exact congrArg (fun v : Violation => v.location.start) heq
    have hfailures : ∀ f ∈ outcome.failures, f.file ≠ file := by
      simpa [List.filter_eq_nil_iff] using h.failures
    refine ⟨hfailures, diagnostics, hanalyze, ?_, ?_, ?_⟩
    · intro d hd
      exact h.recordsOnce rfl rfl hnodup (List.mem_map_of_mem hd) rfl
    · intro v hv hfile
      obtain ⟨d, hd, rfl⟩ := List.mem_map.mp (List.mem_filter.mp ((h.mem_violations hfile).mp hv)).1
      exact ⟨d, hd, rfl⟩
    · intro s hs hfile
      have hmem := (mem_suppressedViolations.mp ((h.mem_suppressed hfile).mp hs)).1
      obtain ⟨d, hd, heq⟩ := List.mem_map.mp hmem
      exact ⟨d, hd, heq.symm⟩

end Outcome.Holds

/-- A run over files whose names differ counts them all, accounts for each of them and has nothing
else. Violations stand strictly in the order of names and positions, and so do suppressed ones. -/
theorem FileTree.run_accounts {tree : FileTree} {base : String} {paths : List String}
    (hreadable : ∀ path ∈ paths, tree.Readable path) (hnames : (paths.map (shownPath base)).Nodup)
    (rules : RuleSet) :
    ∃ outcome, tree.run base rules paths = .ok outcome ∧
      outcome.scanned = paths.length ∧
      (∀ path ∈ paths, ∀ source, tree.readText path = .ok source →
        outcome.Accounts rules (shownPath base path) source) ∧
      ((∀ v ∈ outcome.violations, v.file ∈ paths.map (shownPath base)) ∧
        (∀ s ∈ outcome.suppressed, s.violation.file ∈ paths.map (shownPath base)) ∧
        ∀ f ∈ outcome.failures, f.file ∈ paths.map (shownPath base)) ∧
      outcome.violations.Pairwise Violation.Before ∧
      outcome.suppressed.Pairwise fun s t => s.violation.Before t.violation := by
  have hrun := FileTree.run_eq base rules hreadable
  have hof := fun path hpath => outcomeAt_ofFile base rules (hreadable path hpath)
  obtain ⟨hviolations, hsuppressed, hfailures, hscanned⟩ := FileTree.run_entries hreadable hrun
  refine ⟨_, hrun, hscanned, ?_, ⟨?_, ?_, ?_⟩, FileTree.run_increasing hreadable hrun hnames⟩
  · intro path hpath source hsource
    exact (FileTree.run_holds hreadable hrun hnames hpath).accounts
      (checkFile_of_source base rules hsource).1
  · intro v hv
    obtain ⟨path, hpath, hmem⟩ := hviolations v hv
    exact (hof path hpath).violations v hmem ▸ List.mem_map_of_mem hpath
  · intro s hs
    obtain ⟨path, hpath, hmem⟩ := hsuppressed s hs
    exact (hof path hpath).suppressed s hmem ▸ List.mem_map_of_mem hpath
  · intro f hf
    obtain ⟨path, hpath, hmem⟩ := hfailures f hf
    exact (hof path hpath).failures f hmem ▸ List.mem_map_of_mem hpath

/-- A file with a directive at the end of its first line and a string in each of two lines, and one
that cannot be scanned. -/
theorem FileTree.run_accounts_two_files : ∃ tree outcome,
    FileTree.readText tree "/b.cs" = .ok "F($\"\"); // interpcheck:ignore *\n$\"$\x7ba\x7d\"" ∧
    FileTree.readText tree "/a.cs" = .ok "x\n(" ∧
    tree.run "/" .all ["/b.cs", "/a.cs"] = .ok outcome ∧ outcome.scanned = 2 ∧
    outcome.Accounts .all "b.cs" "F($\"\"); // interpcheck:ignore *\n$\"$\x7ba\x7d\"" ∧
    outcome.Accounts .all "a.cs" "x\n(" ∧ outcome.violations.Pairwise Violation.Before := by
  obtain ⟨tree, hb, ha⟩ : ∃ tree : FileTree,
      tree.readText "/b.cs" = .ok "F($\"\"); // interpcheck:ignore *\n$\"$\x7ba\x7d\"" ∧
      tree.readText "/a.cs" = .ok "x\n(" :=
    ⟨((FileTree.bare []).put ["b.cs"]
        (.file "F($\"\"); // interpcheck:ignore *\n$\"$\x7ba\x7d\"".toUTF8)).put
      ["a.cs"] (.file "x\n(".toUTF8), rfl, rfl⟩
  have hreadable : ∀ path ∈ ["/b.cs", "/a.cs"], tree.Readable path := by
    intro path hpath
    rcases List.mem_pair.mp hpath with rfl | rfl
    · exact ⟨_, hb⟩
    · exact ⟨_, ha⟩
  have hnames : (["/b.cs", "/a.cs"].map (shownPath "/")).Nodup := by decide
  obtain ⟨outcome, hrun, hscanned, haccounts, -, hviolations, -⟩ :=
    FileTree.run_accounts hreadable hnames .all
  exact ⟨tree, outcome, hb, ha, hrun, hscanned, haccounts "/b.cs" (by simp) _ hb,
    haccounts "/a.cs" (by simp) _ ha, hviolations⟩

end InterpolationLint
