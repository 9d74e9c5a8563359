import InterpolationLint.Proofs.Scan.Nesting
import InterpolationLint.Proofs.Text.Walk
import Mathlib.Algebra.Ring.Nat
import Mathlib.Data.List.Flatten
import Mathlib.Data.List.Perm.Basic

/-!
# Diagnostics at distinct positions

No two findings in a scanned text start at the same offset: those of one string stand in different
segments or at its front, and a string nested in another one lies in a hole, where the outer one has
no finding. So their diagnostics are strictly ordered by position, and none is left out as a repeat.
-/

namespace InterpolationLint

/-! ## Findings of one string -/

theorem dollarBefore?_eq_some {id : Nat} {pair : Segment × Segment} {finding : Finding}
    (h : InterpolatedString.dollarBefore? id pair = some finding) :
    ∃ written range, pair.1 = .text written range ∧ pair.2.isHole = true ∧
      written.toList.getLast? = some '$' ∧
      finding = ⟨.dollarBrace, id, .single (range.stop - 1)⟩ := by
  unfold InterpolatedString.dollarBefore? at h
  split at h
  · split at h
    · cases h
      exact ⟨_, _, rfl, rfl, ‹_›, rfl⟩
    · cases h
  · cases h

/-- A finding before a hole stands in the text segment that ends there. -/
theorem dollarBefore?_inside {id : Nat} {pair : Segment × Segment} {finding : Finding}
    (htext : pair.1.textFault? = none)
    (h : InterpolatedString.dollarBefore? id pair = some finding) :
    pair.1.isHole = false ∧ pair.1.range.start ≤ finding.range.start ∧
      finding.range.start < pair.1.range.stop := by
  obtain ⟨written, range, hleft, -, hdollar, rfl⟩ := dollarBefore?_eq_some h
  rw [hleft] at htext ⊢
  have hpos := Segment.start_lt_stop htext hdollar
  refine ⟨rfl, ?_⟩
  simp only [Segment.range, TextRange.single]
  omega

theorem dollars_increase (id : Nat) {a b : Nat} : ∀ {segments : List Segment},
    Segment.Tiles a segments b →
    ((neighbours segments).filterMap (InterpolatedString.dollarBefore? id)).Pairwise
      fun finding next => finding.range.start < next.range.start
  | [], _ => .nil
  | [_], _ => .nil
  | first :: second :: rest, ⟨_, _, htext, h⟩ => by
    have hrest := dollars_increase id h
    rw [show neighbours (first :: second :: rest) = (first, second) :: neighbours (second :: rest)
      from rfl, List.filterMap_cons]
    cases hfirst : InterpolatedString.dollarBefore? id (first, second) with
    | none => exact hrest
    | some finding =>
      refine List.pairwise_cons.mpr ⟨?_, hrest⟩
      intro next hnext
      obtain ⟨pair, hpair, hsome⟩ := List.mem_filterMap.mp hnext
      have hstop : finding.range.start < first.range.stop :=
        (dollarBefore?_inside htext hfirst).2.2
      exact Nat.lt_of_lt_of_le hstop (dollarBefore?_range h hpair hsome).1

theorem dollarBraces_segment {node : InterpolatedString}
    (h : Segment.Tiles node.content.start node.segments node.content.stop) :
    ∀ finding ∈ node.dollarBraces, ∃ segment ∈ node.segments, segment.isHole = false ∧
      segment.range.start ≤ finding.range.start ∧ finding.range.start < segment.range.stop := by
  intro finding hfinding
  obtain ⟨pair, hpair, hsome⟩ := List.mem_filterMap.mp hfinding
  have hmem := (mem_of_mem_neighbours hpair).1
  exact ⟨pair.1, hmem, dollarBefore?_inside (h.of_mem _ hmem).2.1 hsome⟩

namespace InterpolatedString.ReadFrom

variable {text : List Char} {node : InterpolatedString}

theorem start_lt_content (h : node.ReadFrom text) : node.range.start < node.content.start := by
  obtain ⟨_, hopening, _⟩ := h
  exact Nat.lt_add_of_pos_right (Nat.lt_of_succ_lt (marker_le hopening).1)

theorem findings_in_range (h : node.ReadFrom text) : ∀ finding ∈ node.findings,
    node.range.start ≤ finding.range.start ∧ finding.range.start < node.range.stop := by
  intro finding hfinding
  have hcontent := h.start_lt_content
  have hinside := h.range_contains
  simp only [TextRange.contains, Bool.and_eq_true, decide_eq_true_eq] at hinside
  rcases List.mem_append.mp hfinding with hmem | hmem
  · obtain ⟨segment, hsegment, -, hstart, hstop⟩ := dollarBraces_segment h.tiles finding hmem
    obtain ⟨-, -, ha, hb⟩ := h.tiles.of_mem segment hsegment
    omega
  · rw [unnecessary?_range (Option.mem_toList.mp hmem)]
    have := h.tiles.le
    simp only [InterpolatedString.opening]
    omega

theorem findings_distinct (h : node.ReadFrom text) :
    node.findings.Pairwise fun finding next => finding.range.start ≠ next.range.start := by
  refine List.pairwise_append.mpr ⟨(dollars_increase node.id h.tiles).imp Nat.ne_of_lt, ?_, ?_⟩
  · cases node.unnecessary? <;> simp
  · intro finding hfinding marker hmarker
    have hfirst := (dollarBraces_inside h.tiles finding hfinding).1
    have hcontent := h.start_lt_content
    rw [unnecessary?_range (Option.mem_toList.mp hmarker)]
    simp only [InterpolatedString.opening]
    omega

/-- What is found in a string lies outside all that is behind it or in its holes. -/
theorem findings_apart {inner : InterpolatedString} (h : node.ReadFrom text)
    (hstart : node.range.start < inner.range.start)
    (hlaminar : node.range.stop ≤ inner.range.start ∨ node.Encloses text inner) {offset : Nat}
    (hoffset : inner.range.start ≤ offset ∧ offset < inner.range.stop) :
    ∀ finding ∈ node.findings, finding.range.start ≠ offset := by
  intro finding hfinding heq
  subst heq
  rcases hlaminar with hbehind | ⟨k, hole, hk, hbetween, -⟩
  · have := (h.findings_in_range finding hfinding).2
    omega
  · rcases List.mem_append.mp hfinding with hmem | hmem
    · -- the finding would lie in a text segment and in the hole around the inner string
      obtain ⟨segment, hsegment, htext, hinside⟩ := dollarBraces_segment h.tiles finding hmem
      obtain ⟨j, hj⟩ := List.mem_iff_getElem?.mp hsegment
      have hbehind := hbetween.behind
      have hbefore := hbetween.before
      obtain rfl := h.tiles.index_unique hj hk hinside (by omega)
      rw [hj] at hk
      obtain rfl := Option.some.inj hk
      have hhole := hbetween.isHole
      rw [htext] at hhole
      cases hhole
    · rw [unnecessary?_range (Option.mem_toList.mp hmem)] at hoffset
      exact absurd hoffset.1 (Nat.not_le.mpr hstart)

end InterpolatedString.ReadFrom

/-! ## Findings of a tree -/

/-- Rule by rule, the findings of a tree are among those of its strings. -/
theorem SourceTree.findings_subperm (tree : SourceTree) (rules : RuleSet) :
    (tree.findings rules).Subperm (tree.nodes.flatMap (·.findings)) := by
  have hsome : (tree.findings rules).Sublist (Rule.all.flatMap (Rule.findings tree.nodes)) :=
    List.filter_sublist.flatMap _
  have hall : Rule.all.flatMap (Rule.findings tree.nodes) =
      tree.nodes.flatMap (·.dollarBraces) ++ tree.nodes.flatMap (·.unnecessary?.toList) := by
    simp [Rule.all, Rule.findings, List.filterMap_eq_flatMap_toList]
  rw [hall] at hsome
  exact hsome.subperm.trans (List.flatMap_append_perm _ _ _).subperm

section
variable {text : List Char} {tree : SourceTree} (h : SourceTree.ofChars text = .ok tree)
include h

theorem SourceTree.findings_distinct (rules : RuleSet) :
    (tree.findings rules).Pairwise fun finding next => finding.range.start ≠ next.range.start := by
  have hread := SourceTree.readFrom h
  have hnested := SourceTree.nested h
  have hall : (tree.nodes.flatMap (·.findings)).Pairwise
      fun finding next => finding.range.start ≠ next.range.start := by
    refine List.pairwise_flatMap.mpr ⟨fun node hnode => (hread node hnode).findings_distinct, ?_⟩
    refine (hnested.ordered.and hnested.laminar).imp_of_mem ?_
    intro outer inner houter hinner ⟨hstart, hlaminar⟩ x hx y hy
    have hoffset := (hread inner hinner).findings_in_range y hy
    exact (hread outer houter).findings_apart hstart hlaminar hoffset x hx
  obtain ⟨some, hperm, hsublist⟩ := tree.findings_subperm rules
  exact (hperm.pairwise_iff fun hne => Ne.symm hne).mp (hall.sublist hsublist)

theorem SourceTree.markLength_le_findings (rules : RuleSet) : ∀ finding ∈ tree.findings rules,
    LineIndex.markLength text ≤ finding.range.start := by
  intro finding hfinding
  obtain ⟨node, hnode, hmem⟩ := SourceTree.mem_findings hfinding
  have := (SourceTree.readFrom h node hnode).findings_in_range finding hmem
  have := (SourceTree.nested h).inside node hnode
  omega

end

/-! ## Diagnostics -/

namespace Diagnostic

theorem dropRepeats_eq_self : ∀ {ds : List Diagnostic} {seen : List (Rule × Location)},
    (∀ d ∈ ds, d.subject ∉ seen) → (ds.Pairwise fun d next => d.subject ≠ next.subject) →
    dropRepeats seen ds = ds
  | [], _, _, _ => rfl
  | d :: ds, seen, hseen, hdistinct => by
    obtain ⟨hd, hds⟩ := List.pairwise_cons.mp hdistinct
    have hnew : seen.contains d.subject = false := by
      simpa using hseen d List.mem_cons_self
    rw [dropRepeats, hnew, if_neg (by simp), dropRepeats_eq_self _ hds]
    intro e he hmem
    rcases List.mem_cons.mp hmem with heq | hmem
    · exact hd e he heq.symm
    · exact hseen e (List.mem_cons_of_mem d he) hmem

theorem arranged_of_distinct {ds : List Diagnostic}
    (h : ds.Pairwise fun d next => d.location.start ≠ next.location.start) :
    (arranged ds).Perm ds ∧
      (arranged ds).Pairwise fun d next => d.location.start.Before next.location.start := by
  have hperm := List.mergeSort_perm ds inOrder
  have hdistinct : (ds.mergeSort inOrder).Pairwise
      fun d next => d.location.start ≠ next.location.start :=
    (hperm.pairwise_iff fun hne => Ne.symm hne).mpr h
  have hkept : arranged ds = ds.mergeSort inOrder := by
    refine dropRepeats_eq_self (by simp) (hdistinct.imp ?_)
    intro d next hne heq
    exact hne (congrArg (fun subject => subject.2.start) heq)
  rw [hkept]
  refine ⟨hperm, ((List.pairwise_mergeSort inOrder_trans inOrder_total ds).and hdistinct).imp ?_⟩
  rintro d next ⟨horder, hne⟩
  rw [inOrder_iff] at horder
  rw [Ne, Position.eq_iff] at hne
  unfold Position.Before
  omega

end Diagnostic

/-- Diagnostics at findings with distinct offsets have distinct positions. -/
theorem SourceTree.located_distinct {text : List Char} {tree : SourceTree}
    (h : SourceTree.ofChars text = .ok tree) (rules : RuleSet) :
    ((tree.findings rules).map (Diagnostic.located tree.lines)).Pairwise
      fun d next => d.location.start ≠ next.location.start := by
  have hinside := SourceTree.findings_inside h rules
  have hmark := SourceTree.markLength_le_findings h rules
  rw [(SourceTree.ofChars_eq_ok_iff.mp h).2, List.pairwise_map]
  refine (SourceTree.findings_distinct h rules).imp_of_mem ?_
  intro x y hx hy hne
  have hxstop := Nat.le_trans (hinside x hx).1 (hinside x hx).2
  have hystop := Nat.le_trans (hinside y hy).1 (hinside y hy).2
  rcases Nat.lt_or_gt_of_ne hne with hlt | hgt
  · exact (LineIndex.place_before_place (hmark x hx) hlt hystop).ne
  · exact (LineIndex.place_before_place (hmark y hy) hgt hxstop).ne.symm

/-! ## Their number -/

def Segment.endsInDollar : Segment → Bool
  | .text written _ => written.toList.getLast? == some '$'
  | .hole _ _ _ _ => false

def InterpolatedString.dollarHoles (node : InterpolatedString) : Nat :=
  (neighbours node.segments).countP fun pair => pair.1.endsInDollar && pair.2.isHole

theorem length_dollarBraces (node : InterpolatedString) :
    node.dollarBraces.length = node.dollarHoles := by
  unfold InterpolatedString.dollarBraces InterpolatedString.dollarHoles
  rw [List.length_filterMap_eq_countP]
  congr 1
  funext ⟨left, right⟩
  cases left with
  | hole => cases right <;> rfl
  | text written range =>
    cases right with
    | text => simp [InterpolatedString.dollarBefore?, Segment.isHole]
    | hole =>
      by_cases hdollar : written.toList.getLast? = some '$' <;>
        simp [InterpolatedString.dollarBefore?, Segment.endsInDollar, Segment.isHole, hdollar]

theorem isSome_unnecessary? (node : InterpolatedString) :
    node.unnecessary?.isSome = decide (node.holeCount = 0) := by
  unfold InterpolatedString.unnecessary? InterpolatedString.holeCount
  by_cases hany : node.segments.any Segment.isHole = true
  · simp_all
  · simp_all

theorem SourceTree.length_findings (tree : SourceTree) (rules : RuleSet) :
    (tree.findings rules).length =
      (if rules.has .dollarBrace then (tree.nodes.map (·.dollarHoles)).sum else 0) +
      (if rules.has .unnecessaryInterpolation then tree.nodes.countP (·.holeCount = 0) else 0) := by
  have hdollars : (Rule.findings tree.nodes .dollarBrace).length =
      (tree.nodes.map (·.dollarHoles)).sum := by
    simp only [Rule.findings, List.length_flatMap, length_dollarBraces]
  have hmarkers : (Rule.findings tree.nodes .unnecessaryInterpolation).length =
      tree.nodes.countP (·.holeCount = 0) := by
    simp only [Rule.findings, List.length_filterMap_eq_countP, isSome_unnecessary?]
  unfold SourceTree.findings RuleSet.toList Rule.all
  rw [← hdollars, ← hmarkers]
  by_cases hd : rules.has .dollarBrace = true <;>
    by_cases hu : rules.has .unnecessaryInterpolation = true <;> simp [hd, hu]

/-- The diagnostics of a text are strictly ordered by position, and there is one for each dollar
sign before a hole and one for each string without holes, as far as the rules are selected. -/
theorem SourceTree.analyze_strictly_ordered {source : String} {tree : SourceTree}
    (h : SourceTree.ofSource source = .ok tree) (rules : RuleSet) :
    ∃ diagnostics, tree.analyze rules = .ok diagnostics ∧
      (diagnostics.Pairwise fun d next => d.location.start.Before next.location.start) ∧
      diagnostics.Perm ((tree.findings rules).map (Diagnostic.located tree.lines)) ∧
      diagnostics.length =
        (if rules.has .dollarBrace then (tree.nodes.map (·.dollarHoles)).sum else 0) +
        (if rules.has .unnecessaryInterpolation then tree.nodes.countP (·.holeCount = 0)
          else 0) := by
  obtain ⟨hperm, hordered⟩ := Diagnostic.arranged_of_distinct (SourceTree.located_distinct h rules)
  refine ⟨_, SourceTree.analyze_eq h rules, hordered, hperm, ?_⟩
  rw [hperm.length_eq, List.length_map]
  exact tree.length_findings rules

/-- Behind a byte order mark, a dollar sign before a hole, and in the hole a string without one. -/
theorem SourceTree.analyze_two_rules :
    ∃ tree diagnostics, SourceTree.ofSource "\ufeff$\"$\x7b$\"a\"\x7d\"" = .ok tree ∧
      tree.analyze .all = .ok diagnostics ∧
      (diagnostics.Pairwise fun d next => d.location.start.Before next.location.start) ∧
      diagnostics.length = 2 := by
  have hscan : (SourceTree.ofSource "\ufeff$\"$\x7b$\"a\"\x7d\"").toOption.map
      (fun tree => ((tree.nodes.map (·.dollarHoles)).sum, tree.nodes.countP (·.holeCount = 0))) =
        some (1, 1) := by
    decide +kernel
  obtain ⟨tree, htree, hcount⟩ := exists_ok_of_map hscan
  obtain ⟨diagnostics, hanalyze, hordered, -, hlength⟩ :=
    SourceTree.analyze_strictly_ordered htree .all
  rw [(Prod.mk.inj hcount).1, (Prod.mk.inj hcount).2] at hlength
  exact ⟨tree, diagnostics, htree, hanalyze, hordered, hlength⟩

end InterpolationLint
