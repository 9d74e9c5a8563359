import InterpolationLint.Analysis
import InterpolationLint.Proofs.Diagnostic.Order
import InterpolationLint.Proofs.Scan.Budget
import InterpolationLint.Proofs.Scan.Strings

/-!
# Scanned trees are analysed

An analysis fails on a malformed string and on a finding outside the text. A scanned tree has
neither, so its analysis always gives diagnostics.
-/

namespace InterpolationLint

/-! ## When an analysis succeeds -/

theorem LineIndex.locate_eq {index : LineIndex} {range : TextRange}
    (hordered : range.IsOrdered) (h : range.stop ≤ index.length) :
    index.locate range = .ok ⟨index.place range.start, index.place range.stop⟩ := by
  unfold LineIndex.locate
  rw [position_eq_place (Nat.le_trans hordered h), position_eq_place h]

def Diagnostic.located (lines : LineIndex) (finding : Finding) : Diagnostic :=
  ⟨finding.rule, finding.rule.info.message, finding.rule.info.severity,
    ⟨lines.place finding.range.start, lines.place finding.range.stop⟩⟩

theorem Diagnostic.ofFinding_eq {lines : LineIndex} {finding : Finding}
    (hordered : finding.range.IsOrdered) (h : finding.range.stop ≤ lines.length) :
    Diagnostic.ofFinding lines finding = .ok (located lines finding) := by
  unfold Diagnostic.ofFinding
  rw [LineIndex.locate_eq hordered h]
  rfl

/-- Findings that lie in the text become diagnostics. -/
theorem Diagnostic.ofFindings_eq {lines : LineIndex} {findings : List Finding}
    (h : ∀ finding ∈ findings, finding.range.IsOrdered ∧ finding.range.stop ≤ lines.length) :
    Diagnostic.ofFindings lines findings = .ok (arranged (findings.map (located lines))) := by
  unfold Diagnostic.ofFindings
  rw [mapM_eq_map fun finding hmem => Diagnostic.ofFinding_eq (h finding hmem).1 (h finding hmem).2]
  rfl

theorem checkNodes_ok : ∀ {nodes : List InterpolatedString},
    (∀ node ∈ nodes, node.fault? = none) → checkNodes nodes = .ok ()
  | [], _ => rfl
  | node :: rest, h => by
    rw [checkNodes, h node List.mem_cons_self]
    exact checkNodes_ok fun n hn => h n (List.mem_cons_of_mem _ hn)

def InterpolatedString.findings (node : InterpolatedString) : List Finding :=
  node.dollarBraces ++ node.unnecessary?.toList

theorem SourceTree.mem_findings {tree : SourceTree} {rules : RuleSet} {finding : Finding}
    (h : finding ∈ tree.findings rules) : ∃ node ∈ tree.nodes, finding ∈ node.findings := by
  unfold SourceTree.findings at h
  obtain ⟨rule, -, hfinding⟩ := List.mem_flatMap.mp h
  cases rule with
  | dollarBrace =>
    obtain ⟨node, hnode, hmem⟩ := List.mem_flatMap.mp hfinding
    exact ⟨node, hnode, List.mem_append_left _ hmem⟩
  | unnecessaryInterpolation =>
    obtain ⟨node, hnode, hsome⟩ := List.mem_filterMap.mp hfinding
    exact ⟨node, hnode, List.mem_append_right _ (by simp [hsome])⟩

/-! ## Scanned trees -/

theorem SourceTree.ofChars_eq_ok_iff {text : List Char} {tree : SourceTree} :
    SourceTree.ofChars text = .ok tree ↔
      (∃ final, ItemsRun [] (Cursor.atStart text) tree.items final) ∧
        tree.lines = LineIndex.ofChars text := by
  rw [← scanText_eq_ok_iff]
  unfold SourceTree.ofChars
  cases hscan : scanText text with
  | error failure => simp [bind, Except.bind]
  | ok items =>
    obtain ⟨treeItems, lines⟩ := tree
    simp only [bind, Except.bind, pure, Except.pure, Except.ok.injEq, SourceTree.mk.injEq]
    constructor
    · rintro ⟨rfl, rfl⟩
      exact ⟨rfl, rfl⟩
    · rintro ⟨rfl, rfl⟩
      exact ⟨rfl, rfl⟩

theorem SourceTree.lines_length {text : List Char} {tree : SourceTree}
    (h : SourceTree.ofChars text = .ok tree) : tree.lines.length = text.length := by
  rw [(SourceTree.ofChars_eq_ok_iff.mp h).2]
  rfl

theorem SourceTree.readFrom {text : List Char} {tree : SourceTree}
    (h : SourceTree.ofChars text = .ok tree) : ∀ node ∈ tree.nodes, node.ReadFrom text := by
  obtain ⟨⟨final, hrun⟩, -⟩ := SourceTree.ofChars_eq_ok_iff.mp h
  exact hrun.readFrom (.atStart text)

theorem InterpolatedString.ReadFrom.findings_inside {text : List Char} {node : InterpolatedString}
    (h : node.ReadFrom text) : ∀ finding ∈ node.findings,
      finding.range.IsOrdered ∧ finding.range.stop ≤ text.length := by
  intro finding hfinding
  have hstop := h.stop_le
  have hinside := h.range_contains
  simp only [TextRange.contains, Bool.and_eq_true, decide_eq_true_eq] at hinside
  have hle := h.tiles.le
  rcases List.mem_append.mp hfinding with hmem | hmem
  · obtain ⟨-, hordered, hcontent⟩ := dollarBraces_inside h.tiles finding hmem
    exact ⟨hordered, by omega⟩
  · rw [unnecessary?_range (Option.mem_toList.mp hmem)]
    exact ⟨hinside.1, by simp only [InterpolatedString.opening]; omega⟩

section
variable {text : List Char} {tree : SourceTree} (h : SourceTree.ofChars text = .ok tree)
include h

theorem SourceTree.faultless : ∀ node ∈ tree.nodes, node.fault? = none := by
  intro node hnode
  have hread := SourceTree.readFrom h node hnode
  exact fault?_eq_none_of_tiles hread.range_contains hread.tiles

theorem SourceTree.findings_inside (rules : RuleSet) : ∀ finding ∈ tree.findings rules,
    finding.range.IsOrdered ∧ finding.range.stop ≤ text.length := by
  intro finding hfinding
  obtain ⟨node, hnode, hmem⟩ := SourceTree.mem_findings hfinding
  exact (SourceTree.readFrom h node hnode).findings_inside finding hmem

theorem SourceTree.analyze_eq (rules : RuleSet) : tree.analyze rules =
    .ok (Diagnostic.arranged ((tree.findings rules).map (Diagnostic.located tree.lines))) := by
  unfold SourceTree.analyze
  rw [checkNodes_ok (SourceTree.faultless h)]
  apply Diagnostic.ofFindings_eq
  rw [SourceTree.lines_length h]
  exact SourceTree.findings_inside h rules

end

/-- The tree of a text is accepted: its strings have no fault, what the rules find in them lies in
the text, and its analysis gives diagnostics whichever rules are selected. -/
theorem SourceTree.analyze_ofSource_ok {source : String} {tree : SourceTree}
    (h : SourceTree.ofSource source = .ok tree) :
    (∀ node ∈ tree.nodes, node.fault? = none) ∧
    (∀ node ∈ tree.nodes, ∀ finding ∈ node.findings,
      finding.range.start ≤ finding.range.stop ∧ finding.range.stop ≤ source.length) ∧
    ∀ rules, ∃ diagnostics, tree.analyze rules = .ok diagnostics := by
  refine ⟨SourceTree.faultless h, ?_, fun rules => ⟨_, SourceTree.analyze_eq h rules⟩⟩
  intro node hnode finding hfinding
  rw [← String.length_toList]
  exact (SourceTree.readFrom h node hnode).findings_inside finding hfinding

/-- A string in the alignment clause of another, behind a byte order mark. -/
theorem SourceTree.analyze_nested_ok :
    ∃ tree, SourceTree.ofSource "\ufeffF(@$\"$\x7ba,$\"x\"\x7d\")" = .ok tree ∧
      tree.nodes.length = 2 ∧ (∀ node ∈ tree.nodes, node.fault? = none) ∧
      ∀ rules, ∃ diagnostics, tree.analyze rules = .ok diagnostics := by
  refine ⟨_, rfl, rfl, ?_⟩
  have h := SourceTree.analyze_ofSource_ok
    (rfl : SourceTree.ofSource "\ufeffF(@$\"$\x7ba,$\"x\"\x7d\")" = .ok _)
  exact ⟨h.1, h.2.2⟩

end InterpolationLint
