import InterpolationLint.Proofs.Run
import InterpolationLint.Proofs.Analysis
import InterpolationLint.Proofs.Scan.Shift

/-!
# Texts behind a byte order mark

A byte order mark in front of a text moves all offsets by one and nothing else: the scanner begins
behind it with the same characters ahead, and the first line starts behind it too, so that every
offset keeps its line and column.
-/

namespace InterpolationLint

section
variable {text : List Char}

/-! ## Positions -/

@[simp] theorem LineIndex.markLength_mark (text : List Char) :
    markLength (byteOrderMark :: text) = 1 := rfl

theorem LineIndex.starts_mark (hmark : markLength text = 0) :
    (ofChars (byteOrderMark :: text)).starts = (ofChars text).starts.map (· + 1) := by
  have hstarts : startsFrom 0 (byteOrderMark :: text) = startsFrom (0 + 1) text := rfl
  simp only [ofChars, markLength_mark, hmark, hstarts, startsFrom_add 1 0 text, List.map_cons]

theorem LineIndex.place_mark (hmark : markLength text = 0) (offset : Nat) :
    (ofChars (byteOrderMark :: text)).place (offset + 1) = (ofChars text).place offset := by
  have hsame : ((fun start => decide (start ≤ offset + 1)) ∘ (· + 1)) =
      fun start => decide (start ≤ offset) := by
    funext start
    simp
  have hlines : ((ofChars (byteOrderMark :: text)).starts.takeWhile (· ≤ offset + 1)).length =
      ((ofChars text).starts.takeWhile (· ≤ offset)).length := by
    rw [starts_mark hmark, List.takeWhile_map, hsame, List.length_map]
  have hle : ((ofChars text).starts.takeWhile (· ≤ offset)).length ≤ (ofChars text).starts.length :=
    (List.takeWhile_prefix _).length_le
  have hpos : 0 < (ofChars text).starts.length := by simp [ofChars]
  unfold place
  rw [hlines, starts_mark hmark]
  simp only [List.getD_eq_getElem?_getD, List.getElem?_map]
  rw [List.getElem?_eq_getElem (by omega)]
  simp

/-! ## Scanning -/

theorem Cursor.atStart_mark (hmark : LineIndex.markLength text = 0) :
    Cursor.atStart (byteOrderMark :: text) = (Cursor.atStart text).shift 1 0 := by
  simp [Cursor.atStart, Cursor.shift, hmark]

theorem scanText_mark (hmark : LineIndex.markLength text = 0) :
    scanText (byteOrderMark :: text) =
      match scanText text with
      | .ok items => .ok (items.map (·.shift 1 0))
      | .error failure => .error (failure.shift 1) := by
  have hsettled := (Cursor.atStart text).scan_settled []
  rw [scanText_eq, scanText_eq, Cursor.atStart_mark hmark, Cursor.scan_shift]
  cases hscan : (Cursor.atStart text).scan [] with
  | ok r => simp only [itemsFound, shifted, Expr.shiftAll_eq_map]
  | error halt =>
    cases halt with
    | exhausted => exact absurd hscan hsettled
    | failed failure => rfl

theorem SourceTree.ofChars_mark (hmark : LineIndex.markLength text = 0) :
    SourceTree.ofChars (byteOrderMark :: text) =
      match SourceTree.ofChars text with
      | .ok tree =>
        .ok ⟨tree.items.map (·.shift 1 0), LineIndex.ofChars (byteOrderMark :: text)⟩
      | .error failure => .error (failure.shift 1) := by
  unfold SourceTree.ofChars
  rw [scanText_mark hmark]
  cases scanText text with
  | ok items => rfl
  | error failure => rfl

/-! ## Diagnostics -/

theorem Diagnostic.located_mark (hmark : LineIndex.markLength text = 0) (finding : Finding) :
    Diagnostic.located (LineIndex.ofChars (byteOrderMark :: text)) (finding.shift 1 0) =
      Diagnostic.located (LineIndex.ofChars text) finding := by
  unfold Diagnostic.located
  simp only [Finding.shift, TextRange.shift, LineIndex.place_mark hmark]

theorem SourceTree.analyze_mark {tree marked : SourceTree} (hmark : LineIndex.markLength text = 0)
    (htree : SourceTree.ofChars text = .ok tree)
    (hmarked : SourceTree.ofChars (byteOrderMark :: text) = .ok marked)
    (hitems : marked.items = tree.items.map (·.shift 1 0)) (rules : RuleSet) :
    marked.analyze rules = tree.analyze rules := by
  have hnodes : marked.nodes = tree.nodes.map (·.shift 1 0) := by
    rw [SourceTree.nodes, hitems, ← Expr.shiftAll_eq_map, Expr.nodesOf_shiftAll]
    rfl
  have hfindings : marked.findings rules = (tree.findings rules).map (Finding.shift 1 0) := by
    unfold SourceTree.findings
    rw [List.map_flatMap]
    apply List.flatMap_congr
    intro rule _
    rw [hnodes]
    apply Rule.findings_shift
    intro node hnode
    exact (SourceTree.readFrom htree node hnode).tiles
  rw [SourceTree.analyze_eq htree, SourceTree.analyze_eq hmarked, hfindings, List.map_map]
  congr 2
  apply List.map_congr_left
  intro finding _
  rw [(SourceTree.ofChars_eq_ok_iff.mp htree).2, (SourceTree.ofChars_eq_ok_iff.mp hmarked).2]
  exact Diagnostic.located_mark hmark finding

end

/-- A byte order mark makes no difference to an analysis. The text behind it has the same tree one
character further on, and the same diagnostics; or it fails in the same way at the same position. -/
theorem SourceTree.ofSource_mark {text : String} (h : text.toList.head? ≠ some byteOrderMark) :
    ((∃ marked, SourceTree.ofSource ("\ufeff" ++ text) = .ok marked) ↔
      ∃ tree, SourceTree.ofSource text = .ok tree) ∧
    (∀ tree marked, SourceTree.ofSource text = .ok tree →
      SourceTree.ofSource ("\ufeff" ++ text) = .ok marked →
      marked.items = tree.items.map (·.shift 1 0) ∧
      ∀ rules, ∃ diagnostics, tree.analyze rules = .ok diagnostics ∧
        marked.analyze rules = .ok diagnostics) ∧
    (∀ failure, SourceTree.ofSource text = .error failure →
      SourceTree.ofSource ("\ufeff" ++ text) = .error (failure.shift 1) ∧
      ∃ position, (LineIndex.ofText text).position failure.offset = .ok position ∧
        (LineIndex.ofText ("\ufeff" ++ text)).position (failure.shift 1).offset =
          .ok position) := by
  have hmark := LineIndex.markLength_eq_zero h
  have hchars : ("\ufeff" ++ text).toList = byteOrderMark :: text.toList := by
    rw [String.toList_append]
    rfl
  have hscan : SourceTree.ofSource ("\ufeff" ++ text) =
      match SourceTree.ofSource text with
      | .ok tree =>
        .ok ⟨tree.items.map (·.shift 1 0), LineIndex.ofChars (byteOrderMark :: text.toList)⟩
      | .error failure => .error (failure.shift 1) := by
    unfold SourceTree.ofSource
    rw [hchars]
    exact SourceTree.ofChars_mark hmark
  refine ⟨?_, ?_, ?_⟩
  · rw [hscan]
    cases SourceTree.ofSource text with
    | ok tree => exact ⟨fun _ => ⟨tree, rfl⟩, fun _ => ⟨_, rfl⟩⟩
    | error failure => exact ⟨nofun, nofun⟩
  · intro tree marked htree hmarked
    have hitems : marked.items = tree.items.map (·.shift 1 0) := by
      rw [hscan, htree] at hmarked
      cases hmarked
      rfl
    refine ⟨hitems, fun rules => ⟨_, SourceTree.analyze_eq htree rules, ?_⟩⟩
    rw [SourceTree.ofSource, hchars] at hmarked
    rw [SourceTree.analyze_mark hmark htree hmarked hitems, SourceTree.analyze_eq htree]
  · intro failure hfailure
    have hmarked : SourceTree.ofSource ("\ufeff" ++ text) = .error (failure.shift 1) := by
      rw [hscan, hfailure]
    refine ⟨hmarked, _, SourceTree.position_of_failure hfailure, ?_⟩
    rw [SourceTree.position_of_failure hmarked, LineIndex.ofText, hchars]
    exact congrArg Except.ok (LineIndex.place_mark hmark failure.offset)

/-- A directive in the first line, a dollar sign before a hole with a string in it, and a bracket
that nothing closes. -/
theorem SourceTree.ofSource_mark_first_line :
    (∃ tree marked, SourceTree.ofSource "#if\n$\"$\x7b$\"a\"\x7d\"" = .ok tree ∧
      SourceTree.ofSource ("\ufeff" ++ "#if\n$\"$\x7b$\"a\"\x7d\"") = .ok marked ∧
      marked.items = tree.items.map (·.shift 1 0) ∧
      ∀ rules, ∃ diagnostics, tree.analyze rules = .ok diagnostics ∧
        marked.analyze rules = .ok diagnostics) ∧
    SourceTree.ofSource ("\ufeff" ++ "a (") = .error ⟨.unbalanced '(', 3⟩ := by
  have hmark := SourceTree.ofSource_mark
    (by decide : "#if\n$\"$\x7b$\"a\"\x7d\"".toList.head? ≠ some byteOrderMark)
  have hfail := SourceTree.ofSource_mark (by decide : "a (".toList.head? ≠ some byteOrderMark)
  exact ⟨⟨_, _, rfl, rfl, hmark.2.1 _ _ rfl rfl⟩, (hfail.2.2 _ rfl).1⟩

end InterpolationLint
