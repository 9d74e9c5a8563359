import InterpolationLint.Proofs.Run
import InterpolationLint.Proofs.Diagnostic.Distinct
import InterpolationLint.Proofs.Outcome.Sort

/-!
# Runs over several files

The outcome of a run is made of those of its files, and every entry names its file. Entries of
different files never tie, so neither the order of the files nor the way they are divided into
several runs makes a difference.
-/

namespace InterpolationLint

/-! ## Entries by file -/

section
variable {α β : Type} {xs ys : List α}

/-- Where at most one of the lists has entries, their order does not matter. -/
theorem flatMap_eq_of_perm {entries : α → List β} (h : xs.Perm ys)
    (hone : xs.Pairwise fun x y => entries x = [] ∨ entries y = []) :
    xs.flatMap entries = ys.flatMap entries := by
  induction h with
  | nil => rfl
  | cons x h ih => simp [ih (List.pairwise_cons.mp hone).2]
  | swap x y l =>
    rcases (List.pairwise_cons.mp hone).1 x List.mem_cons_self with hnil | hnil <;> simp [hnil]
  | trans h h' ih ih' =>
    exact (ih hone).trans (ih' ((h.pairwise_iff Or.symm).mp hone))

variable {name : α → String} {file : β → String} {entries : α → List β}
  (hfile : ∀ x ∈ xs, ∀ b ∈ entries x, file b = name x) (hnames : (xs.map name).Nodup)
include hfile hnames

theorem filter_flatMap_file {x : α} (hx : x ∈ xs) :
    (xs.flatMap entries).filter (file · = name x) = entries x := by
  induction xs with
  | nil => cases hx
  | cons y ys ih =>
    have hown := hfile y List.mem_cons_self
    have hothers := fun z hz => hfile z (List.mem_cons_of_mem y hz)
    rw [List.map_cons, List.nodup_cons] at hnames
    rw [List.flatMap_cons, List.filter_append]
    by_cases hy : x ∈ ys
    · have hne : name y ≠ name x := by
        intro heq
        exact hnames.1 (heq ▸ List.mem_map_of_mem hy)
      have hnone : (entries y).filter (file · = name x) = [] := by
        simpa [List.filter_eq_nil_iff] using fun b hb => hown b hb ▸ hne
      rw [hnone, ih hothers hnames.2 hy, List.nil_append]
    · obtain rfl : x = y := by simpa [hy] using hx
      have hall : (entries x).filter (file · = name x) = entries x := by
        simpa [List.filter_eq_self] using hown
      have hnone : (ys.flatMap entries).filter (file · = name x) = [] := by
        simp only [List.filter_eq_nil_iff, List.mem_flatMap, decide_eq_true_eq]
        rintro b ⟨z, hz, hb⟩ heq
        rw [hothers z hz b hb] at heq
        exact hnames.1 (heq ▸ List.mem_map_of_mem hz)
      rw [hall, hnone, List.append_nil]

theorem sortBy_flatMap_perm {cmp : β → β → Ordering} [Std.TransCmp cmp]
    (hcmp : ∀ {a b}, cmp a b = .eq → file a = file b) (h : xs.Perm ys) :
    sortBy cmp (xs.flatMap entries) = sortBy cmp (ys.flatMap entries) := by
  have htie : ∀ {x : α} {a : β}, x ∈ xs → file a ≠ name x → tiesWith cmp a (entries x) = [] := by
    intro x a hx hne
    apply List.filter_eq_nil_iff.mpr
    intro b hb heq
    apply hne
    rw [hcmp (by simpa using heq), hfile x hx b hb]
  apply sortBy_congr
  intro a
  simp only [tiesWith, List.filter_flatMap]
  apply flatMap_eq_of_perm h
  refine (List.pairwise_map.mp hnames).imp_of_mem ?_
  intro x y hx hy hne
  by_cases ha : file a = name x
  · exact .inr (htie hy (ha ▸ hne))
  · exact .inl (htie hx ha)

end

namespace Outcome

theorem file_eq_of_violationOrder {v w : Violation} (h : violationOrder v w = .eq) :
    v.file = w.file := by
  simp only [violationOrder, compareLex, compareOn, Ordering.then_eq_eq,
    Std.compare_eq_iff_eq] at h
  exact h.1

theorem file_eq_of_suppressedOrder {s t : SuppressedViolation} (h : suppressedOrder s t = .eq) :
    s.violation.file = t.violation.file := by
  simpa [suppressedOrder, compareOn] using h

theorem file_eq_of_failureOrder {f g : FileFailure} (h : failureOrder f g = .eq) :
    f.file = g.file := by
  simpa [failureOrder, compareOn] using h

/-! ## One file -/

/-- An outcome that has entries of one file only, its violations in the order of their positions. -/
structure OfFile (file : String) (outcome : Outcome) : Prop where
  violations : ∀ v ∈ outcome.violations, v.file = file
  suppressed : ∀ s ∈ outcome.suppressed, s.violation.file = file
  failures : ∀ f ∈ outcome.failures, f.file = file
  scanned : outcome.scanned = 1
  increasing : outcome.violations.Pairwise fun v w => v.location.start.Before w.location.start
  suppressedIncreasing : outcome.suppressed.Pairwise
    fun s t => s.violation.location.start.Before t.violation.location.start

end Outcome

theorem mem_suppressedViolations {suppressions : List Suppression} {violations : List Violation}
    {s : SuppressedViolation} : s ∈ suppressedViolations suppressions violations ↔
      s.violation ∈ violations ∧
        suppressions.find? (·.covers s.violation) = some s.suppression := by
  simp only [suppressedViolations, List.mem_filterMap, Option.map_eq_some_iff]
  constructor
  · rintro ⟨v, hv, s, hs, rfl⟩
    exact ⟨hv, hs⟩
  · rintro ⟨hv, hs⟩
    exact ⟨_, hv, _, hs, rfl⟩

theorem pairwise_suppressedViolations {suppressions : List Suppression}
    {R : Violation → Violation → Prop} {violations : List Violation} (h : violations.Pairwise R) :
    (suppressedViolations suppressions violations).Pairwise fun s t => R s.violation t.violation := by
  apply List.Pairwise.filterMap _ _ h
  intro v w hvw s hs t ht
  obtain ⟨s, -, rfl⟩ := Option.map_eq_some_iff.mp hs
  obtain ⟨t, -, rfl⟩ := Option.map_eq_some_iff.mp ht
  exact hvw

theorem checkSource_of_tree {source : String} {tree : SourceTree}
    (h : SourceTree.ofSource source = .ok tree) (rules : RuleSet) (file : String) :
    ∃ diagnostics, tree.analyze rules = .ok diagnostics ∧
      (diagnostics.Pairwise fun d e => d.location.start.Before e.location.start) ∧
      checkSource rules file source = .ok {
        violations := activeViolations (Suppression.ofSource file source)
          (diagnostics.map (Violation.ofDiagnostic file))
        suppressed := suppressedViolations (Suppression.ofSource file source)
          (diagnostics.map (Violation.ofDiagnostic file))
        failures := []
        scanned := 1 } := by
  refine ⟨_, SourceTree.analyze_eq h rules,
    (Diagnostic.arranged_of_distinct (SourceTree.located_distinct h rules)).2, ?_⟩
  unfold checkSource
  rw [h]
  dsimp only
  rw [SourceTree.analyze_eq h]
  rfl

theorem checkSource_ofFile (rules : RuleSet) (file source : String) :
    ∃ outcome, checkSource rules file source = .ok outcome ∧ outcome.OfFile file := by
  cases hscan : SourceTree.ofSource source with
  | error failure =>
    refine ⟨_, checkSource_of_failure hscan rules file, ?_⟩
    constructor <;> simp [Outcome.empty]
  | ok tree =>
    obtain ⟨diagnostics, -, hincreasing, hcheck⟩ := checkSource_of_tree hscan rules file
    have hviolations : ∀ v ∈ diagnostics.map (Violation.ofDiagnostic file), v.file = file := by
      intro v hv
      obtain ⟨d, -, rfl⟩ := List.mem_map.mp hv
      rfl
    have hpairwise : (diagnostics.map (Violation.ofDiagnostic file)).Pairwise
        fun v w => v.location.start.Before w.location.start := List.pairwise_map.mpr hincreasing
    refine ⟨_, hcheck, ?_⟩
    constructor
    · intro v hv
      exact hviolations v (List.mem_filter.mp hv).1
    · intro s hs
      exact hviolations s.violation (mem_suppressedViolations.mp hs).1
    · simp
    · rfl
    · exact hpairwise.filter _
    · exact pairwise_suppressedViolations hpairwise

/-! ## All files -/

namespace FileTree

section
variable (tree : FileTree) (base : String) (rules : RuleSet)

/-- The outcome of one file, and nothing if it cannot be read. -/
def outcomeAt (path : String) : Outcome :=
  (tree.checkFile base rules path).toOption.getD Outcome.empty

def Readable (path : String) : Prop := ∃ source, tree.readText path = .ok source

variable {tree}

theorem checkFile_of_source {path source : String} (h : tree.readText path = .ok source) :
    checkSource rules (shownPath base path) source = .ok (tree.outcomeAt base rules path) ∧
      tree.checkFile base rules path = .ok (tree.outcomeAt base rules path) := by
  obtain ⟨outcome, hcheck, -⟩ := checkSource_ofFile rules (shownPath base path) source
  have hfile : tree.checkFile base rules path = .ok outcome := by
    unfold checkFile
    dsimp only
    rw [h]
    dsimp only
    rw [hcheck]
    rfl
  have hat : tree.outcomeAt base rules path = outcome := by
    rw [outcomeAt, hfile]
    rfl
  rw [hat]
  exact ⟨hcheck, hfile⟩

theorem outcomeAt_ofFile {path : String} (h : tree.Readable path) :
    (tree.outcomeAt base rules path).OfFile (shownPath base path) := by
  obtain ⟨source, hsource⟩ := h
  obtain ⟨outcome, hcheck, hof⟩ := checkSource_ofFile rules (shownPath base path) source
  rw [(checkFile_of_source base rules hsource).1] at hcheck
  cases hcheck
  exact hof

theorem run_eq {paths : List String} (h : ∀ path ∈ paths, tree.Readable path) :
    tree.run base rules paths = .ok (Outcome.sort
      ⟨paths.flatMap fun path => (tree.outcomeAt base rules path).violations,
        paths.flatMap fun path => (tree.outcomeAt base rules path).suppressed,
        paths.flatMap fun path => (tree.outcomeAt base rules path).failures,
        paths.length⟩) := by
  have hmap : paths.mapM (tree.checkFile base rules) =
      .ok (paths.map (tree.outcomeAt base rules)) := by
    apply mapM_eq_map
    intro path hpath
    obtain ⟨source, hsource⟩ := h path hpath
    exact (checkFile_of_source base rules hsource).2
  have hscanned : (paths.map fun path => (tree.outcomeAt base rules path).scanned) =
      List.replicate paths.length 1 := by
    rw [← List.map_const']
    apply List.map_congr_left
    intro path hpath
    exact (outcomeAt_ofFile base rules (h path hpath)).scanned
  unfold run
  rw [hmap]
  simp only [bind, Except.bind, pure, Except.pure, foldl_merge, Outcome.empty, List.flatMap_map,
    List.map_map, Function.comp_def, List.nil_append, Nat.zero_add]
  rw [hscanned]
  simp

theorem run_append {first second : List String}
    (h : ∀ path ∈ first ++ second, tree.Readable path) :
    ∃ a b, tree.run base rules first = .ok a ∧ tree.run base rules second = .ok b ∧
      tree.run base rules (first ++ second) = .ok (a.merge b).sort := by
  have hfirst := fun path hpath => h path (List.mem_append_left second hpath)
  have hsecond := fun path hpath => h path (List.mem_append_right first hpath)
  refine ⟨_, _, run_eq base rules hfirst, run_eq base rules hsecond, ?_⟩
  rw [run_eq base rules h, Outcome.sort_merge_sort]
  simp only [Outcome.merge, List.flatMap_append, List.length_append]

theorem run_perm {paths paths' : List String} (h : ∀ path ∈ paths, tree.Readable path)
    (hnames : (paths.map (shownPath base)).Nodup) (hperm : paths.Perm paths') :
    tree.run base rules paths' = tree.run base rules paths := by
  have h' : ∀ path ∈ paths', tree.Readable path := fun path hpath => h path (hperm.mem_iff.mpr hpath)
  have hof := fun path hpath => outcomeAt_ofFile base rules (h path hpath)
  have hviolations := sortBy_flatMap_perm (fun path hpath => (hof path hpath).violations) hnames
    Outcome.file_eq_of_violationOrder hperm
  have hsuppressed := sortBy_flatMap_perm (fun path hpath => (hof path hpath).suppressed) hnames
    Outcome.file_eq_of_suppressedOrder hperm
  have hfailures := sortBy_flatMap_perm (fun path hpath => (hof path hpath).failures) hnames
    Outcome.file_eq_of_failureOrder hperm
  rw [run_eq base rules h, run_eq base rules h']
  simp only [Outcome.sort_eq, hviolations, hsuppressed, hfailures, hperm.length_eq]

end

/-- A run does not depend on how its files are grouped, nor on their order if their names differ. -/
theorem run_regrouped (tree : FileTree) (base : String) (rules : RuleSet) :
    (∀ first second : List String, (∀ path ∈ first ++ second, tree.Readable path) →
      ∃ a b, tree.run base rules first = .ok a ∧ tree.run base rules second = .ok b ∧
        tree.run base rules (first ++ second) = .ok (a.merge b).sort) ∧
    ∀ paths paths' : List String, (∀ path ∈ paths, tree.Readable path) →
      (paths.map (shownPath base)).Nodup → paths.Perm paths' →
      ∃ outcome, tree.run base rules paths = .ok outcome ∧
        tree.run base rules paths' = .ok outcome := by
  refine ⟨fun first second h => run_append base rules h, ?_⟩
  intro paths paths' h hnames hperm
  refine ⟨_, run_eq base rules h, ?_⟩
  rw [run_perm base rules h hnames hperm, run_eq base rules h]

/-- A file with a suppressed string and one that cannot be scanned, in both orders. -/
theorem run_regrouped_two_files : ∃ tree : FileTree,
    tree.readText "/b.cs" = .ok "F($\"\"); // interpcheck:ignore *" ∧
    tree.readText "/a.cs" = .ok "x\n(" ∧
    (∃ a b, tree.run "/" .all ["/b.cs"] = .ok a ∧ tree.run "/" .all ["/a.cs"] = .ok b ∧
      tree.run "/" .all ["/b.cs", "/a.cs"] = .ok (a.merge b).sort) ∧
    ∃ outcome, tree.run "/" .all ["/b.cs", "/a.cs"] = .ok outcome ∧
      tree.run "/" .all ["/a.cs", "/b.cs"] = .ok outcome := by
  obtain ⟨tree, hb, ha⟩ : ∃ tree : FileTree,
      tree.readText "/b.cs" = .ok "F($\"\"); // interpcheck:ignore *" ∧
      tree.readText "/a.cs" = .ok "x\n(" :=
    ⟨((FileTree.bare []).put ["b.cs"] (.file "F($\"\"); // interpcheck:ignore *".toUTF8)).put
      ["a.cs"] (.file "x\n(".toUTF8), rfl, rfl⟩
  have hreadable : ∀ path ∈ ["/b.cs", "/a.cs"], tree.Readable path := by
    intro path hpath
    rcases List.mem_pair.mp hpath with rfl | rfl
    · exact ⟨_, hb⟩
    · exact ⟨_, ha⟩
  obtain ⟨hgrouped, hordered⟩ := run_regrouped tree "/" .all
  exact ⟨tree, hb, ha, hgrouped ["/b.cs"] ["/a.cs"] hreadable,
    hordered ["/b.cs", "/a.cs"] ["/a.cs", "/b.cs"] hreadable (by decide) (.swap ..)⟩

end FileTree

end InterpolationLint
