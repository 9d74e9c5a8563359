import InterpolationLint.Proofs.Analysis
import InterpolationLint.Proofs.Scan.Continuation
import InterpolationLint.Proofs.Scan.Layout
import InterpolationLint.Proofs.Scan.Shift

/-!
# Texts one below the other

A text that is scanned to its end may be followed by another one in a further line. The items and
diagnostics of both stand one after the other, those of the second moved down, and what is wrong
with the second is wrong with the whole in the same way.
-/

namespace InterpolationLint

/-! ## Scanning -/

section
variable {s t : List Char}

theorem Cursor.atStart_join (s t : List Char) :
    Cursor.atStart (s ++ '\n' :: t) = (Cursor.atStart s).extend t := by
  unfold Cursor.atStart Cursor.extend
  simp only [LineIndex.markLength_join]
  rw [List.drop_append_of_le_length (LineIndex.markLength_le s)]

/-- The place where the second text begins. -/
theorem Cursor.extend_advance_newline {c : Cursor} (hahead : c.ahead = [])
    (ht : LineIndex.markLength t = 0) :
    (c.extend t).advance 1 = (Cursor.atStart t).shift (c.offset + 1) c.opened := by
  simp only [Cursor.advance, Cursor.extend, Cursor.atStart, Cursor.shift, hahead, ht,
    List.nil_append, List.drop_succ_cons, List.drop_zero, List.take_succ_cons, List.take_zero,
    lineStartAfter, beq_self_eq_true, Bool.true_or, Nat.zero_add]

theorem scan_join {items : List Expr} {final : Cursor}
    (h : ItemsRun [] (Cursor.atStart s) items final) (ht : LineIndex.markLength t = 0) :
    (Cursor.atStart (s ++ '\n' :: t)).scan [] =
      prepend items (shifted (s.length + 1) (Expr.nodesOf items).length
        (Expr.shiftAll (s.length + 1) (Expr.nodesOf items).length)
        ((Cursor.atStart t).scan [])) := by
  have hahead : final.ahead = [] := Lexeme.eq_nil_of_read h.stops
  have hnewline : (final.extend t).ahead = '\n' :: t := by
    rw [Cursor.extend_ahead, hahead, List.nil_append]
  have hopened : final.opened = (Expr.nodesOf items).length := by
    rw [h.opened]
    exact Nat.zero_add _
  -- the newline is a blank, and the place behind it is the start of the second text, shifted
  rw [Cursor.atStart_join, h.scan_extend t (by simp),
    Cursor.scan_of_blank (by simp) (by decide) hnewline, Cursor.extend_advance_newline hahead ht,
    Cursor.scan_shift, h.ends, hopened]

theorem scanText_join {items : List Expr} (h : scanText s = .ok items)
    (ht : LineIndex.markLength t = 0) :
    scanText (s ++ '\n' :: t) =
      match scanText t with
      | .ok more =>
        .ok (items ++ more.map (·.shift (s.length + 1) (Expr.nodesOf items).length))
      | .error failure => .error (failure.shift (s.length + 1)) := by
  obtain ⟨final, hrun⟩ := scanText_eq_ok_iff.mp h
  have hsettled := (Cursor.atStart t).scan_settled []
  rw [scanText_eq, scan_join hrun ht, scanText_eq]
  cases hscan : (Cursor.atStart t).scan [] with
  | ok r => simp only [itemsFound, prepend, shifted, Expr.shiftAll_eq_map]
  | error halt =>
    cases halt with
    | exhausted => exact absurd hscan hsettled
    | failed failure => rfl

end

/-! ## Diagnostics -/

section
variable {s t : List Char}

theorem Diagnostic.located_join_left (ht : LineIndex.markLength t = 0) {finding : Finding}
    (h : finding.range.IsOrdered ∧ finding.range.stop ≤ s.length) :
    Diagnostic.located (LineIndex.ofChars (s ++ '\n' :: t)) finding =
      Diagnostic.located (LineIndex.ofChars s) finding := by
  unfold Diagnostic.located
  rw [LineIndex.place_join_left ht (Nat.le_trans h.1 h.2), LineIndex.place_join_left ht h.2]

theorem Diagnostic.located_join_right (ht : LineIndex.markLength t = 0) (k : Nat)
    (finding : Finding) :
    Diagnostic.located (LineIndex.ofChars (s ++ '\n' :: t)) (finding.shift (s.length + 1) k) =
      (Diagnostic.located (LineIndex.ofChars t) finding).below (LineIndex.ofChars s).lineCount := by
  unfold Diagnostic.located
  simp only [Finding.shift, TextRange.shift, LineIndex.place_join_right ht]
  rfl

/-- What is found in the lines of the first text and in those of the second does not mix. -/
theorem Diagnostic.arranged_join {n : Nat} {rules : List Rule} {first second : Rule → List Diagnostic}
    (hfirst : ∀ rule ∈ rules, ∀ d ∈ first rule, d.location.start.line ≤ n)
    (hsecond : ∀ rule ∈ rules, ∀ d ∈ second rule, 1 ≤ d.location.start.line) :
    arranged (rules.flatMap fun rule => first rule ++ (second rule).map (below n)) =
      arranged (rules.flatMap first) ++ (arranged (rules.flatMap second)).map (below n) := by
  have hlate : ∀ rule ∈ rules, ∀ d ∈ (second rule).map (below n), ¬ d.location.start.line ≤ n := by
    intro rule hrule d hd
    obtain ⟨e, he, rfl⟩ := List.mem_map.mp hd
    have hpos := hsecond rule hrule e he
    show ¬ e.location.start.line + n ≤ n
    omega
  have hbefore : ∀ rule ∈ rules, (first rule ++ (second rule).map (below n)).filter
      (fun d => d.location.start.line ≤ n) = first rule := by
    intro rule hrule
    rw [List.filter_append, List.filter_eq_self.mpr, List.filter_eq_nil_iff.mpr, List.append_nil]
    · exact fun d hd => by simpa using hlate rule hrule d hd
    · exact fun d hd => by simpa using hfirst rule hrule d hd
  have hbehind : ∀ rule ∈ rules, (first rule ++ (second rule).map (below n)).filter
      (fun d => !decide (d.location.start.line ≤ n)) = (second rule).map (below n) := by
    intro rule hrule
    rw [List.filter_append, List.filter_eq_nil_iff.mpr, List.filter_eq_self.mpr, List.nil_append]
    · exact fun d hd => by simpa using hlate rule hrule d hd
    · exact fun d hd => by simpa using hfirst rule hrule d hd
  rw [arranged_split n, List.filter_flatMap, List.filter_flatMap, List.flatMap_congr hbefore,
    List.flatMap_congr hbehind, ← arranged_below, List.map_flatMap]

theorem SourceTree.analyze_join {tree next whole : SourceTree}
    (hs : SourceTree.ofChars s = .ok tree) (ht : SourceTree.ofChars t = .ok next)
    (hwhole : SourceTree.ofChars (s ++ '\n' :: t) = .ok whole) (hmark : LineIndex.markLength t = 0)
    (hitems : whole.items = tree.items ++ next.items.map (·.shift (s.length + 1) tree.nodes.length))
    (rules : RuleSet) :
    ∃ first second, tree.analyze rules = .ok first ∧ next.analyze rules = .ok second ∧
      whole.analyze rules = .ok (first ++ second.map (·.below tree.lines.lineCount)) := by
  have hfirst := (SourceTree.ofChars_eq_ok_iff.mp hs).2
  have hsecond := (SourceTree.ofChars_eq_ok_iff.mp ht).2
  have hlines := (SourceTree.ofChars_eq_ok_iff.mp hwhole).2
  have hnodes : whole.nodes =
      tree.nodes ++ next.nodes.map (·.shift (s.length + 1) tree.nodes.length) := by
    rw [SourceTree.nodes, hitems, Expr.nodesOf_append, ← Expr.shiftAll_eq_map,
      Expr.nodesOf_shiftAll]
    rfl
  -- findings come rule by rule, so those of the two texts alternate before they are arranged
  have hfound : (whole.findings rules).map (Diagnostic.located whole.lines) =
      rules.toList.flatMap fun rule =>
        (rule.findings tree.nodes).map (Diagnostic.located tree.lines) ++
          ((rule.findings next.nodes).map (Diagnostic.located next.lines)).map
            (Diagnostic.below tree.lines.lineCount) := by
    unfold SourceTree.findings
    rw [List.map_flatMap]
    apply List.flatMap_congr
    intro rule hrule
    rw [hnodes, Rule.findings_append,
      Rule.findings_shift _ _ fun node hnode => (SourceTree.readFrom ht node hnode).tiles,
      List.map_append, List.map_map, List.map_map, hlines, hfirst, hsecond]
    congr 1
    · apply List.map_congr_left
      intro finding hfinding
      have hmem : finding ∈ tree.findings rules := List.mem_flatMap.mpr ⟨rule, hrule, hfinding⟩
      exact Diagnostic.located_join_left hmark (SourceTree.findings_inside hs rules finding hmem)
    · apply List.map_congr_left
      intro finding _
      exact Diagnostic.located_join_right hmark _ finding
  refine ⟨_, _, SourceTree.analyze_eq hs rules, SourceTree.analyze_eq ht rules, ?_⟩
  rw [SourceTree.analyze_eq hwhole rules, hfound, Diagnostic.arranged_join]
  · unfold SourceTree.findings
    rw [List.map_flatMap, List.map_flatMap]
  · intro rule _ d hd
    obtain ⟨finding, -, rfl⟩ := List.mem_map.mp hd
    rw [hfirst]
    exact (LineIndex.place_line_le s finding.range.start).2
  · intro rule _ d hd
    obtain ⟨finding, -, rfl⟩ := List.mem_map.mp hd
    rw [hsecond]
    exact (LineIndex.place_line_le t finding.range.start).1

end

/-! ## Sources -/

theorem SourceTree.ofChars_join {s t : List Char} {tree : SourceTree}
    (hs : SourceTree.ofChars s = .ok tree) (hmark : LineIndex.markLength t = 0) :
    SourceTree.ofChars (s ++ '\n' :: t) =
      match SourceTree.ofChars t with
      | .ok next => .ok ⟨tree.items ++ next.items.map (·.shift (s.length + 1) tree.nodes.length),
          LineIndex.ofChars (s ++ '\n' :: t)⟩
      | .error failure => .error (failure.shift (s.length + 1)) := by
  have hscan : scanText s = .ok tree.items :=
    scanText_eq_ok_iff.mpr (SourceTree.ofChars_eq_ok_iff.mp hs).1
  unfold SourceTree.ofChars
  rw [scanText_join hscan hmark]
  cases scanText t with
  | ok more => rfl
  | error failure => rfl

/-- Sources compose line by line. Below a source that is scanned another one is scanned if it would
be by itself, with the same items and diagnostics further down, and fails as it would by itself. -/
theorem SourceTree.ofSource_join {s t : String} {tree : SourceTree}
    (hs : SourceTree.ofSource s = .ok tree) (ht : t.toList.head? ≠ some byteOrderMark) :
    ((∃ whole, SourceTree.ofSource (s ++ "\n" ++ t) = .ok whole) ↔
      ∃ next, SourceTree.ofSource t = .ok next) ∧
    (∀ next whole, SourceTree.ofSource t = .ok next →
      SourceTree.ofSource (s ++ "\n" ++ t) = .ok whole →
      whole.items = tree.items ++ next.items.map (·.shift (s.length + 1) tree.nodes.length) ∧
      ∀ rules, ∃ first second, tree.analyze rules = .ok first ∧ next.analyze rules = .ok second ∧
        whole.analyze rules =
          .ok (first ++ second.map (·.below (LineIndex.ofText s).lineCount))) ∧
    (∀ failure, SourceTree.ofSource t = .error failure →
      SourceTree.ofSource (s ++ "\n" ++ t) = .error (failure.shift (s.length + 1))) := by
  have hmark := LineIndex.markLength_eq_zero ht
  have hchars : (s ++ "\n" ++ t).toList = s.toList ++ '\n' :: t.toList := by simp
  have hlines : tree.lines = LineIndex.ofText s := (SourceTree.ofChars_eq_ok_iff.mp hs).2
  have hjoin := SourceTree.ofChars_join hs hmark
  rw [String.length_toList] at hjoin
  unfold SourceTree.ofSource
  rw [hchars]
  refine ⟨?_, ?_, ?_⟩
  · rw [hjoin]
    cases SourceTree.ofChars t.toList with
    | ok next => exact ⟨fun _ => ⟨next, rfl⟩, fun _ => ⟨_, rfl⟩⟩
    | error failure => exact ⟨nofun, nofun⟩
  · intro next whole hnext hwhole
    have hitems : whole.items =
        tree.items ++ next.items.map (·.shift (s.length + 1) tree.nodes.length) := by
      rw [hjoin, hnext] at hwhole
      cases hwhole
      rfl
    refine ⟨hitems, ?_⟩
    rw [← hlines]
    rw [← String.length_toList] at hitems
    exact SourceTree.analyze_join hs hnext hwhole hmark hitems
  · intro failure hfailure
    rw [hjoin, hfailure]

/-- A comment to the end of the first source, which begins with a byte order mark, and a directive
with a string below it in the second. A bracket that nothing closes is reported in its line. -/
theorem SourceTree.ofSource_below_comment :
    (∃ tree next whole, SourceTree.ofSource "\ufeffF($\"$\x7ba\x7d\") // $\"" = .ok tree ∧
      tree.nodes.length = 1 ∧ SourceTree.ofSource "#if\n$\"b\"" = .ok next ∧
      SourceTree.ofSource ("\ufeffF($\"$\x7ba\x7d\") // $\"" ++ "\n" ++ "#if\n$\"b\"") = .ok whole ∧
      whole.items = tree.items ++ next.items.map (·.shift 18 1) ∧
      ∀ rules, ∃ first second, tree.analyze rules = .ok first ∧ next.analyze rules = .ok second ∧
        whole.analyze rules = .ok (first ++ second.map (·.below 1))) ∧
    SourceTree.ofSource ("\ufeffF($\"$\x7ba\x7d\") // $\"" ++ "\n" ++ "(") =
      .error ⟨.unbalanced '(', 18⟩ := by
  have hs : SourceTree.ofSource "\ufeffF($\"$\x7ba\x7d\") // $\"" = .ok _ := rfl
  have hjoin := SourceTree.ofSource_join hs (t := "#if\n$\"b\"") (by decide)
  have hfail := SourceTree.ofSource_join hs (t := "(") (by decide)
  refine ⟨⟨_, _, _, hs, rfl, rfl, rfl, ?_⟩, hfail.2.2 _ rfl⟩
  exact hjoin.2.1 _ _ rfl rfl

end InterpolationLint
