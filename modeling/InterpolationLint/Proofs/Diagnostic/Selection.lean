import InterpolationLint.Proofs.Diagnostic.Distinct
import InterpolationLint.Proofs.Outcome.Sort

/-!
# Selected diagnostics

The rules share one sort and one list of what has been seen. Neither lets a rule touch the
diagnostics of another: sorting keeps the order of what remains when entries are left out, and only
diagnostics of the same rule repeat each other. This holds of any tree, also of one with strings
that overlap, repeat each other or stand out of order.
-/

namespace InterpolationLint

/-! ## Findings by rule -/

theorem Rule.rule_of_mem_findings {nodes : List InterpolatedString} {rule : Rule}
    {finding : Finding} (h : finding ∈ rule.findings nodes) : finding.rule = rule := by
  cases rule with
  | dollarBrace =>
    obtain ⟨node, -, hmem⟩ := List.mem_flatMap.mp h
    obtain ⟨pair, -, hpair⟩ := List.mem_filterMap.mp hmem
    obtain ⟨_, _, -, -, -, rfl⟩ := dollarBefore?_eq_some hpair
    rfl
  | unnecessaryInterpolation =>
    obtain ⟨node, -, hnode⟩ := List.mem_filterMap.mp h
    unfold InterpolatedString.unnecessary? at hnode
    split at hnode
    · cases hnode
    · cases hnode
      rfl

theorem Rule.filter_findings (rules : RuleSet) (nodes : List InterpolatedString) (rule : Rule) :
    (rule.findings nodes).filter (rules.has ·.rule) =
      if rules.has rule then rule.findings nodes else [] := by
  have hsame : (rule.findings nodes).filter (rules.has ·.rule) =
      (rule.findings nodes).filter fun _ => rules.has rule := by
    apply List.filter_congr
    intro finding hfinding
    rw [Rule.rule_of_mem_findings hfinding]
  rw [hsame]
  split <;> simp [*]

theorem SourceTree.findings_selected (tree : SourceTree) (rules : RuleSet) :
    tree.findings rules = (tree.findings .all).filter (rules.has ·.rule) := by
  have hall : RuleSet.all.toList = Rule.all := rfl
  unfold SourceTree.findings
  rw [hall, List.filter_flatMap, RuleSet.toList]
  simp only [Rule.filter_findings]
  induction Rule.all with
  | nil => rfl
  | cons rule rest ih =>
    by_cases hrule : rules.has rule <;> simp [hrule, ih]

/-! ## Diagnostics by rule -/

namespace Diagnostic

instance : Std.TransCmp order := by
  unfold order
  infer_instance

theorem rule_ofFinding {lines : LineIndex} {finding : Finding} {d : Diagnostic}
    (h : ofFinding lines finding = .ok d) : d.rule = finding.rule := by
  unfold ofFinding at h
  split at h
  · cases h
  · cases h
    rfl

theorem mapM_ofFinding_filter {lines : LineIndex} (rules : RuleSet) :
    ∀ {findings : List Finding} {found : List Diagnostic},
      findings.mapM (ofFinding lines) = .ok found →
      (findings.filter (rules.has ·.rule)).mapM (ofFinding lines) =
        .ok (found.filter (rules.has ·.rule))
  | [], _, h => by
    cases h
    rfl
  | finding :: findings, _, h => by
    rw [List.mapM_cons] at h
    obtain ⟨d, hd, h⟩ := bind_eq_ok h
    obtain ⟨found, hfound, h⟩ := bind_eq_ok h
    cases h
    have hrest := mapM_ofFinding_filter rules hfound
    by_cases hrule : rules.has finding.rule
    · simp only [List.filter_cons, rule_ofFinding hd, hrule, if_true, List.mapM_cons, hd, hrest]
      rfl
    · simpa [List.filter_cons, rule_ofFinding hd, hrule] using hrest

/-- A diagnostic that is left out hides none of those that stay. -/
theorem dropRepeats_filter {p : Diagnostic → Bool}
    (hp : ∀ d e : Diagnostic, d.subject = e.subject → p d = p e) :
    ∀ (ds : List Diagnostic) (seen : List (Rule × Location)),
      dropRepeats seen (ds.filter p) = (dropRepeats seen ds).filter p
  | [], _ => rfl
  | d :: ds, seen => by
    by_cases hd : p d = true
    · rw [List.filter_cons_of_pos hd, dropRepeats, dropRepeats]
      split
      · exact dropRepeats_filter hp ds seen
      · rw [List.filter_cons_of_pos hd, dropRepeats_filter hp ds]
    · rw [List.filter_cons_of_neg hd, dropRepeats]
      split
      · exact dropRepeats_filter hp ds seen
      · rw [List.filter_cons_of_neg hd, ← dropRepeats_filter hp ds]
        apply dropRepeats_congr
        intro e he
        have hne : e.subject ≠ d.subject := by
          intro heq
          apply hd
          rw [← hp e d heq]
          exact (List.mem_filter.mp he).2
        simp [hne]

theorem arranged_filter (rules : RuleSet) (ds : List Diagnostic) :
    arranged (ds.filter (rules.has ·.rule)) = (arranged ds).filter (rules.has ·.rule) := by
  have hsort : (sortBy order ds).filter (rules.has ·.rule) =
      sortBy order (ds.filter (rules.has ·.rule)) := filter_sortBy _ ds
  have harranged : ∀ l, arranged l = dropRepeats [] (sortBy order l) := fun _ => rfl
  rw [harranged, harranged, ← hsort]
  apply dropRepeats_filter
  intro d e heq
  have hrule : d.rule = e.rule := congrArg Prod.fst heq
  rw [hrule]

theorem ofFindings_filter {lines : LineIndex} {findings : List Finding} {ds : List Diagnostic}
    (h : ofFindings lines findings = .ok ds) (rules : RuleSet) :
    ofFindings lines (findings.filter (rules.has ·.rule)) = .ok (ds.filter (rules.has ·.rule)) := by
  unfold ofFindings at h ⊢
  obtain ⟨found, hfound, h⟩ := bind_eq_ok h
  cases h
  rw [mapM_ofFinding_filter rules hfound]
  exact congrArg Except.ok (arranged_filter rules found)

end Diagnostic

/-- An analysis by some of the rules gives the diagnostics of these rules in an analysis by all, in
the same order. -/
theorem SourceTree.analyze_selected {tree : SourceTree} {diagnostics : List Diagnostic}
    (h : tree.analyze .all = .ok diagnostics) (rules : RuleSet) :
    tree.analyze rules = .ok (diagnostics.filter (rules.has ·.rule)) := by
  unfold SourceTree.analyze at h ⊢
  obtain ⟨_, hnodes, hfindings⟩ := bind_eq_ok h
  rw [hnodes, SourceTree.findings_selected]
  exact Diagnostic.ofFindings_filter hfindings rules

/-- Strings that overlap, out of order and one of them twice, with findings of both rules at one
place. -/
theorem SourceTree.analyze_selected_overlapping :
    ∃ (tree : SourceTree) (diagnostics : List Diagnostic),
      tree.nodes.map (fun node => (node.id, node.range)) =
        [(2, ⟨5, 7⟩), (1, ⟨1, 3⟩), (0, ⟨0, 4⟩), (1, ⟨1, 3⟩)] ∧
      tree.analyze .all = .ok diagnostics ∧
      diagnostics.map (fun d => (d.rule, d.location.start)) =
        [(.dollarBrace, ⟨1, 2⟩), (.unnecessaryInterpolation, ⟨1, 2⟩),
          (.unnecessaryInterpolation, ⟨2, 1⟩)] ∧
      tree.analyze ⟨false, true⟩ =
        .ok (diagnostics.filter (RuleSet.has ⟨false, true⟩ ·.rule)) := by
  obtain ⟨tree, hnodes, hall⟩ : ∃ tree : SourceTree,
      tree.nodes.map (fun node => (node.id, node.range)) =
        [(2, ⟨5, 7⟩), (1, ⟨1, 3⟩), (0, ⟨0, 4⟩), (1, ⟨1, 3⟩)] ∧
      tree.analyze .all = .ok (Diagnostic.arranged
        ([⟨.dollarBrace, 0, ⟨1, 2⟩⟩, ⟨.unnecessaryInterpolation, 2, ⟨5, 6⟩⟩,
          ⟨.unnecessaryInterpolation, 1, ⟨1, 2⟩⟩, ⟨.unnecessaryInterpolation, 1, ⟨1, 2⟩⟩].map
            (Diagnostic.located (LineIndex.ofText "abcd\nef")))) :=
    ⟨⟨[.interpolated ⟨2, .regular, ⟨5, 7⟩, ⟨6, 6⟩, []⟩,
        .interpolated ⟨1, .regular, ⟨1, 3⟩, ⟨2, 2⟩, []⟩,
        .interpolated ⟨0, .regular, ⟨0, 4⟩, ⟨1, 4⟩,
          [.text "$" ⟨1, 2⟩, .hole ⟨2, 4⟩ (.code ⟨3, 3⟩) none none]⟩,
        .interpolated ⟨1, .regular, ⟨1, 3⟩, ⟨2, 2⟩, []⟩],
      LineIndex.ofText "abcd\nef"⟩, rfl, rfl⟩
  refine ⟨tree, _, hnodes, hall, ?_, SourceTree.analyze_selected hall ⟨false, true⟩⟩
  unfold Diagnostic.arranged
  simp only [List.map_cons, List.map_nil, List.mergeSort_nil,
    mergeSort_cons_eq Diagnostic.inOrder_trans Diagnostic.inOrder_total]
  decide +kernel

end InterpolationLint
