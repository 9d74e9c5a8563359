import InterpolationLint.Proofs.Run
import InterpolationLint.Proofs.Scan.Returns

/-!
# Texts with returns

Whether the lines of a text end with newlines alone or with carriage returns before them makes no
difference to an analysis: the same diagnostics come out, or the same failure at the same position,
and the same suppressions.
-/

namespace InterpolationLint

section
variable {text : List Char}

/-! ## Scanning -/

theorem Cursor.atStart_withReturns (text : List Char) :
    Cursor.atStart (withReturns text) = (Cursor.atStart text).stretched text := by
  simp [Cursor.atStart, Cursor.stretched, LineIndex.markLength_withReturns, LineIndex.stretch_mark,
    LineIndex.drop_mark_withReturns]

/-- The same strings are found, or the same failure. -/
theorem scanText_withReturns (hplain : PlainEnds text) :
    match scanText text with
    | .ok items => ∃ items', scanText (withReturns text) = .ok items' ∧
        ItemsReturned text items items'
    | .error failure => scanText (withReturns text) = .error (failure.stretched text) := by
  have hwithin := Cursor.Within.atStart text
  have hscan : Corresponds text (ItemsReturned text) ((Cursor.atStart text).scan [])
      (((Cursor.atStart text).stretched text).scan []) :=
    scanItems_returns hplain _ hwithin (by simp) (Nat.le_refl _)
  have hsettled := (Cursor.atStart text).scan_settled []
  rw [scanText_eq, scanText_eq, Cursor.atStart_withReturns]
  match hfound : (Cursor.atStart text).scan [], hscan with
  | .ok (items, final), hscan =>
    obtain ⟨items', hitems, hscan'⟩ := hscan
    rw [hscan']
    exact ⟨items', rfl, hitems⟩
  | .error (.failed failure), hscan =>
    rw [show _ = _ from hscan]
    rfl
  | .error .exhausted, _ => exact absurd hfound hsettled

theorem SourceTree.ofChars_withReturns (hplain : PlainEnds text) :
    match SourceTree.ofChars text with
    | .ok tree => ∃ tree', SourceTree.ofChars (withReturns text) = .ok tree' ∧
        List.Forall₂ (InterpolatedString.Returned text) tree.nodes tree'.nodes
    | .error failure =>
      SourceTree.ofChars (withReturns text) = .error (failure.stretched text) := by
  have hscan := scanText_withReturns hplain
  unfold SourceTree.ofChars
  cases hitems : scanText text with
  | ok items =>
    rw [hitems] at hscan
    obtain ⟨items', hitems', hreturned⟩ := hscan
    rw [hitems']
    exact ⟨_, rfl, hreturned⟩
  | error failure =>
    rw [hitems] at hscan
    rw [show scanText (withReturns text) = _ from hscan]
    rfl

/-! ## Diagnostics -/

theorem Diagnostic.located_stretched {finding : Finding} (hordered : finding.range.IsOrdered)
    (h : finding.range.stop ≤ text.length) :
    Diagnostic.located (LineIndex.ofChars (withReturns text)) (finding.stretched text) =
      Diagnostic.located (LineIndex.ofChars text) finding := by
  unfold Diagnostic.located
  simp only [Finding.stretched, TextRange.stretched, LineIndex.place_stretch h,
    LineIndex.place_stretch (Nat.le_trans hordered h)]

theorem SourceTree.analyze_withReturns {tree tree' : SourceTree}
    (htree : SourceTree.ofChars text = .ok tree)
    (htree' : SourceTree.ofChars (withReturns text) = .ok tree')
    (hnodes : List.Forall₂ (InterpolatedString.Returned text) tree.nodes tree'.nodes)
    (rules : RuleSet) : tree'.analyze rules = tree.analyze rules := by
  have hfindings : tree'.findings rules = (tree.findings rules).map (Finding.stretched text) := by
    unfold SourceTree.findings
    rw [List.map_flatMap]
    apply List.flatMap_congr
    intro rule _
    exact Rule.findings_returned (SourceTree.readFrom htree) hnodes rule
  rw [SourceTree.analyze_eq htree, SourceTree.analyze_eq htree', hfindings, List.map_map]
  congr 2
  apply List.map_congr_left
  intro finding hfinding
  obtain ⟨hordered, hinside⟩ := SourceTree.findings_inside htree rules finding hfinding
  rw [(SourceTree.ofChars_eq_ok_iff.mp htree).2, (SourceTree.ofChars_eq_ok_iff.mp htree').2]
  exact Diagnostic.located_stretched hordered hinside

end

/-- A text without carriage returns, in which no newline is escaped, may be written with a return
before every newline: it is accepted as before and has the same diagnostics, or it fails for the same
problem at the same position, and its suppressions are the same. -/
theorem SourceTree.ofSource_withReturns {source : String} (hplain : PlainEnds source.toList) :
    let returned := String.ofList (withReturns source.toList)
    ((∃ tree', SourceTree.ofSource returned = .ok tree') ↔
      ∃ tree, SourceTree.ofSource source = .ok tree) ∧
    (∀ tree tree', SourceTree.ofSource source = .ok tree →
      SourceTree.ofSource returned = .ok tree' → ∀ rules, ∃ diagnostics,
        tree.analyze rules = .ok diagnostics ∧ tree'.analyze rules = .ok diagnostics) ∧
    (∀ file, Suppression.ofSource file returned = Suppression.ofSource file source) ∧
    (∀ failure failure', SourceTree.ofSource source = .error failure →
      SourceTree.ofSource returned = .error failure' →
      failure'.problem = failure.problem ∧ ∃ position,
        (LineIndex.ofText source).position failure.offset = .ok position ∧
        (LineIndex.ofText returned).position failure'.offset = .ok position) := by
  intro returned
  have hchars : returned.toList = withReturns source.toList := String.toList_ofList
  have hscan := SourceTree.ofChars_withReturns hplain
  have hreturned : SourceTree.ofSource returned = SourceTree.ofChars (withReturns source.toList) := by
    rw [SourceTree.ofSource, hchars]
  refine ⟨?_, ?_, ?_, ?_⟩
  · rw [hreturned]
    unfold SourceTree.ofSource
    cases hsource : SourceTree.ofChars source.toList with
    | ok tree =>
      rw [hsource] at hscan
      obtain ⟨tree', htree', -⟩ := hscan
      exact ⟨fun _ => ⟨tree, rfl⟩, fun _ => ⟨tree', htree'⟩⟩
    | error failure =>
      rw [hsource] at hscan
      rw [show SourceTree.ofChars _ = _ from hscan]
      exact ⟨nofun, nofun⟩
  · intro tree tree' htree htree' rules
    rw [SourceTree.ofSource] at htree
    rw [htree] at hscan
    obtain ⟨tree'', htree'', hnodes⟩ := hscan
    rw [hreturned] at htree'
    obtain rfl := Except.ok.inj (htree''.symm.trans htree')
    refine ⟨_, SourceTree.analyze_eq htree rules, ?_⟩
    rw [SourceTree.analyze_withReturns htree htree' hnodes, SourceTree.analyze_eq htree]
  · intro file
    rw [Suppression.ofSource, Suppression.ofSource, hchars, Suppression.ofChars,
      Suppression.ofChars, splitLines_withReturns hplain.return_not_mem]
  · intro failure failure' hfailure hfailure'
    have hposition := SourceTree.position_of_failure hfailure
    have hposition' := SourceTree.position_of_failure hfailure'
    have hoffset := (SourceTree.failure_pointsInto hfailure).offset_lt
    rw [SourceTree.ofSource] at hfailure
    rw [hfailure] at hscan
    rw [hreturned] at hfailure'
    obtain rfl := Except.error.inj ((show SourceTree.ofChars _ = _ from hscan).symm.trans hfailure')
    refine ⟨rfl, _, hposition, ?_⟩
    rw [hposition', LineIndex.ofText, hchars]
    exact congrArg Except.ok (LineIndex.place_stretch (Nat.le_of_lt hoffset))

/-- A directive, a comment and a string over several lines, with a dollar sign before its hole, and a
string on one line that the newline cuts off. -/
theorem SourceTree.ofSource_withReturns_lines :
    (∃ tree tree', SourceTree.ofSource "#if\n$@\"a\n$\x7bb // c\n\x7d\"" = .ok tree ∧
      SourceTree.ofSource "#if\r\n$@\"a\r\n$\x7bb // c\r\n\x7d\"" = .ok tree' ∧
      (tree.findings .all).length = 1 ∧ ∀ rules, ∃ diagnostics,
        tree.analyze rules = .ok diagnostics ∧ tree'.analyze rules = .ok diagnostics) ∧
    (∃ failure failure', SourceTree.ofSource "a\n $\"b\n" = .error failure ∧
      SourceTree.ofSource "a\r\n $\"b\r\n" = .error failure' ∧ ∃ position,
        (LineIndex.ofText "a\n $\"b\n").position failure.offset = .ok position ∧
        (LineIndex.ofText "a\r\n $\"b\r\n").position failure'.offset = .ok position) := by
  have hlines := SourceTree.ofSource_withReturns
    (⟨by decide, by decide⟩ : PlainEnds "#if\n$@\"a\n$\x7bb // c\n\x7d\"".toList)
  have hcut := SourceTree.ofSource_withReturns
    (⟨by decide, by decide⟩ : PlainEnds "a\n $\"b\n".toList)
  exact ⟨⟨_, _, rfl, rfl, rfl, hlines.2.1 _ _ rfl rfl⟩,
    ⟨_, _, rfl, rfl, (hcut.2.2.2 _ _ rfl rfl).2⟩⟩

end InterpolationLint
