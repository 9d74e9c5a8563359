import InterpolationLint.Proofs.Diagnostic.Distinct

/-!
# What a diagnostic highlights

Read back from the source at its line and columns, a diagnostic shows what its rule is about: the
dollar sign right before a hole, or the opening marker of a string without holes.
-/

namespace InterpolationLint

/-! ## Opening markers -/

inductive StringKind.Marked : StringKind → List Char → Prop
  | regular : Marked .regular ['$', '"']
  | dollarAt : Marked .verbatim ['$', '@', '"']
  | atDollar : Marked .verbatim ['@', '$', '"']
  | raw {dollars quotes : Nat} : 1 ≤ dollars → 3 ≤ quotes →
      Marked (.raw dollars quotes) (List.replicate dollars '$' ++ List.replicate quotes '"')

theorem StringKind.Marked.subset {kind : StringKind} {marker : List Char}
    (h : kind.Marked marker) : marker ⊆ ['$', '@', '"'] := by
  cases h with
  | regular => decide
  | dollarAt => decide
  | atDollar => decide
  | raw => grind

theorem opening?_marked {cs : List Char} {kind : StringKind} {length : Nat}
    (h : opening? cs = some (kind, length)) :
    ∃ marker rest, cs = marker ++ rest ∧ marker.length = length ∧ kind.Marked marker := by
  rcases opening?_cases h with ⟨rfl, rfl, rest, rfl | rfl⟩ |
    ⟨dollars, quotes, rfl, rfl, hd, hq, hdollars, hquotes⟩ | ⟨rfl, rfl, rest, rfl⟩
  · exact ⟨_, rest, rfl, rfl, .dollarAt⟩
  · exact ⟨_, rest, rfl, rfl, .atDollar⟩
  · refine ⟨_, (cs.drop dollars).drop quotes, ?_, by simp, .raw hd hq⟩
    have hfront := eq_replicate_append '$' cs
    have hback := eq_replicate_append '"' (cs.drop dollars)
    rw [← hdollars] at hfront
    rw [← hquotes] at hback
    rw [List.append_assoc, ← hback, ← hfront]
  · exact ⟨_, rest, rfl, rfl, .regular⟩

/-! ## Segments as written -/

theorem drop_eq_cons {cs : List Char} {i : Nat} {c : Char} (h : cs[i]? = some c) :
    cs.drop i = c :: cs.drop (i + 1) := by
  obtain ⟨hi, rfl⟩ := List.getElem?_eq_some_iff.mp h
  exact List.drop_eq_getElem_cons hi

def Segment.Written (text : List Char) : Segment → Prop
  | .text written range => written.toList = (text.drop range.start).take range.length
  | .hole range _ _ _ => text[range.start]? = some '\x7b'

section
variable {text : List Char}

theorem written_textBetween {start stop : Cursor} (hstart : start.Within text) :
    ∀ segment ∈ textBetween start stop, segment.Written text := by
  intro segment hmem
  unfold textBetween at hmem
  split at hmem
  · rw [List.mem_singleton.mp hmem]
    simp [Segment.Written, hstart.drop_offset, Cursor.textUpTo, TextRange.length]
  · cases hmem

mutual

theorem SegmentsRun.written {kind : StringKind} {pending c final : Cursor}
    {segments : List Segment} (h : SegmentsRun kind pending c segments final)
    (hpending : pending.Within text) (hc : c.Within text) :
    ∀ segment ∈ segments, segment.Written text := by
  match h with
  | .close _ => exact written_textBetween hpending
  | .text hread h =>
    exact h.written hpending (hc.reaches (.advance c (Cursor.fits_of_part hread).2))
  | .hole hread hhole h =>
    have hbraces := Cursor.fits_of_part hread
    have hafter := hc.reaches (hhole.reaches hbraces.2)
    refine List.forall_mem_append.mpr ⟨written_textBetween hpending, ?_⟩
    exact List.forall_mem_cons.mpr ⟨hhole.written hc hbraces, h.written hafter hafter⟩

theorem HoleRun.written {braces : Nat} {c final : Cursor} {hole : Segment}
    (h : HoleRun braces c hole final) (hc : c.Within text)
    (hbraces : 1 ≤ braces ∧ braces ≤ runLength '\x7b' c.ahead) : hole.Written text := by
  match h with
  | .closed _ _ _ _ => exact hc.getElem?_run hbraces.2 0 hbraces.1

end

end

namespace InterpolatedString.ReadFrom

variable {text : List Char} {node : InterpolatedString}

theorem written (h : node.ReadFrom text) : ∀ segment ∈ node.segments, segment.Written text := by
  obtain ⟨hc, hopening, hsegments⟩ := h
  have hinside := hc.reaches (.enter _ (marker_le hopening).2)
  exact hsegments.written hinside hinside

/-- The opening marker stands at the front of the string. -/
theorem marked (h : node.ReadFrom text) : ∃ marker rest, node.kind.Marked marker ∧
    text.drop node.range.start = marker ++ rest ∧
      node.opening = ⟨node.range.start, node.range.start + marker.length⟩ := by
  obtain ⟨hc, hopening, hsegments⟩ := h
  obtain ⟨marker, rest, hahead, rfl, hmarked⟩ := opening?_marked hopening
  exact ⟨marker, rest, hmarked, by rw [← hahead, ← hc.drop_offset], rfl⟩

/-- A text segment that ends in a dollar sign has one before its end in the source. -/
theorem getElem?_dollar (h : node.ReadFrom text) {written : String} {range : TextRange}
    (hmem : Segment.text written range ∈ node.segments)
    (hdollar : written.toList.getLast? = some '$') : text[range.stop - 1]? = some '$' := by
  have htext := (h.tiles.of_mem _ hmem).2.1
  have hpos := Segment.start_lt_stop htext hdollar
  have hwritten : written.toList = (text.drop range.start).take range.length := h.written _ hmem
  have hlength : written.toList.length = range.stop - range.start := by
    have : written.length = range.length := by simpa [Segment.textFault?] using htext
    rw [String.length_toList, this, TextRange.length]
  rw [List.getLast?_eq_getElem?, hlength, hwritten, TextRange.length,
    List.getElem?_take_of_lt (by omega), List.getElem?_drop] at hdollar
  rw [← hdollar]
  congr 1
  omega

/-- A finding before a hole is a dollar sign, and the hole begins right behind it. -/
theorem dollar_before_hole (h : node.ReadFrom text) : ∀ finding ∈ node.dollarBraces,
    finding.rule = .dollarBrace ∧ ∃ hole ∈ node.segments, ∃ rest, hole.isHole = true ∧
      finding.range = ⟨finding.range.start, finding.range.start + 1⟩ ∧
      hole.range.start = finding.range.start + 1 ∧
      text.drop finding.range.start = '$' :: '\x7b' :: rest := by
  intro finding hfinding
  obtain ⟨pair, hpair, hsome⟩ := List.mem_filterMap.mp hfinding
  obtain ⟨hleft, hright⟩ := mem_of_mem_neighbours hpair
  have hmeet := h.tiles.meet hpair
  obtain ⟨written, range, htext, hhole, hdollar, rfl⟩ := dollarBefore?_eq_some hsome
  rw [htext] at hleft hmeet
  have hpos := Segment.start_lt_stop (h.tiles.of_mem _ hleft).2.1 hdollar
  have hfirst := h.getElem?_dollar hleft hdollar
  have hstart : pair.2.range.start = range.stop - 1 + 1 := by
    rw [← hmeet]
    show range.stop = _
    omega
  have hsecond : text[range.stop - 1 + 1]? = some '\x7b' := by
    rw [← hstart]
    have hwritten := h.written _ hright
    cases hpair : pair.2 with
    | text => simp [hpair, Segment.isHole] at hhole
    | hole =>
      rw [hpair] at hwritten
      exact hwritten
  refine ⟨rfl, pair.2, hright, text.drop (range.stop - 1 + 1 + 1), hhole, rfl, hstart, ?_⟩
  show text.drop (range.stop - 1) = _
  rw [drop_eq_cons hfirst, drop_eq_cons hsecond]

end InterpolatedString.ReadFrom

theorem InterpolatedString.holeless_of_unnecessary? {node : InterpolatedString} {finding : Finding}
    (h : node.unnecessary? = some finding) : finding.rule = .unnecessaryInterpolation ∧
      ∀ segment ∈ node.segments, segment.isHole = false := by
  unfold InterpolatedString.unnecessary? at h
  split at h
  · cases h
  · rename_i hnone
    cases h
    exact ⟨rfl, by simpa using hnone⟩

/-! ## Diagnostics -/

def Diagnostic.Highlights (text : List Char) (tree : SourceTree) (d : Diagnostic) : Prop :=
  match d.rule with
  | .dollarBrace =>
    d.location.read text = ['$'] ∧ (d.location.stop.ahead text).head? = some '\x7b' ∧
      ∃ node ∈ tree.nodes, ∃ hole ∈ node.segments, hole.isHole = true ∧
        tree.lines.position hole.range.start = .ok d.location.stop
  | .unnecessaryInterpolation =>
    ∃ node ∈ tree.nodes, (∀ segment ∈ node.segments, segment.isHole = false) ∧
      node.kind.Marked (d.location.read text) ∧ tree.lines.locate node.opening = .ok d.location

section
variable {text : List Char} {tree : SourceTree} (h : SourceTree.ofChars text = .ok tree)
include h

/-- A finding on one line is read back from its diagnostic. -/
theorem SourceTree.read_located {rules : RuleSet} {finding : Finding}
    (hfinding : finding ∈ tree.findings rules) {xs rest : List Char}
    (hdrop : text.drop finding.range.start = xs ++ rest)
    (hstop : finding.range.stop = finding.range.start + xs.length) (hxs : '\n' ∉ xs) :
    (tree.lines.place finding.range.start).line = (tree.lines.place finding.range.stop).line ∧
    (Diagnostic.located tree.lines finding).location.read text = xs ∧
    (tree.lines.place finding.range.stop).ahead text = rest.takeWhile (· != '\n') := by
  have hmark := SourceTree.markLength_le_findings h rules finding hfinding
  obtain ⟨hordered, hinside⟩ := SourceTree.findings_inside h rules finding hfinding
  have hplace := LineIndex.read_place hmark (Nat.le_trans hordered hinside) hdrop hxs
  rw [← hstop] at hplace
  rw [(SourceTree.ofChars_eq_ok_iff.mp h).2]
  exact hplace

theorem SourceTree.located_highlights {rules : RuleSet} {finding : Finding}
    (hfinding : finding ∈ tree.findings rules) :
    (tree.lines.place finding.range.start).line = (tree.lines.place finding.range.stop).line ∧
      (Diagnostic.located tree.lines finding).Highlights text tree := by
  obtain ⟨node, hnode, hmem⟩ := SourceTree.mem_findings hfinding
  have hread := SourceTree.readFrom h node hnode
  obtain ⟨hordered, hinside⟩ := SourceTree.findings_inside h rules finding hfinding
  rw [← SourceTree.lines_length h] at hinside
  rcases List.mem_append.mp hmem with hdollar | hmarker
  · obtain ⟨hrule, hole, hhole, rest, hisHole, hrange, hstart, hdrop⟩ :=
      hread.dollar_before_hole finding hdollar
    have hstop : finding.range.stop = finding.range.start + 1 := by rw [hrange]
    have hfirst : text.drop finding.range.start = ['$'] ++ '\x7b' :: rest := hdrop
    obtain ⟨hline, hshown, hnext⟩ :=
      SourceTree.read_located h hfinding hfirst hstop (by decide)
    refine ⟨hline, ?_⟩
    unfold Diagnostic.Highlights
    rw [show (Diagnostic.located tree.lines finding).rule = .dollarBrace from hrule]
    refine ⟨hshown, ?_, node, hnode, hole, hhole, hisHole, ?_⟩
    · rw [show (Diagnostic.located tree.lines finding).location.stop.ahead text = _ from hnext]
      simp
    · rw [hstart, ← hstop, LineIndex.position_eq_place hinside]
      rfl
  · have hsome := Option.mem_toList.mp hmarker
    obtain ⟨hrule, hholes⟩ := InterpolatedString.holeless_of_unnecessary? hsome
    obtain ⟨marker, rest, hmarked, hdrop, hopening⟩ := hread.marked
    have hrange := unnecessary?_range hsome
    rw [hopening] at hrange
    have hfirst : text.drop finding.range.start = marker ++ rest := by rw [hrange, hdrop]
    obtain ⟨hline, hshown, -⟩ :=
      SourceTree.read_located h hfinding hfirst (by rw [hrange]) (fun hmem => absurd (hmarked.subset hmem) (by decide))
    refine ⟨hline, ?_⟩
    unfold Diagnostic.Highlights
    rw [show (Diagnostic.located tree.lines finding).rule = .unnecessaryInterpolation from hrule]
    refine ⟨node, hnode, hholes, hshown ▸ hmarked, ?_⟩
    rw [hopening, ← hrange, LineIndex.locate_eq hordered hinside]
    rfl

end

/-- Every diagnostic of a text is on one of its lines and highlights what its rule is about. -/
theorem SourceTree.analyze_highlights {source : String} {tree : SourceTree}
    (h : SourceTree.ofSource source = .ok tree) (rules : RuleSet) :
    ∃ diagnostics, tree.analyze rules = .ok diagnostics ∧ ∀ d ∈ diagnostics,
      d.location.start.line = d.location.stop.line ∧
      d.location.stop.line ≤ tree.lines.lineCount ∧ d.Highlights source.toList tree := by
  refine ⟨_, SourceTree.analyze_eq h rules, ?_⟩
  intro d hd
  have hperm := (Diagnostic.arranged_of_distinct (SourceTree.located_distinct h rules)).1
  obtain ⟨finding, hfinding, rfl⟩ := List.mem_map.mp (hperm.mem_iff.mp hd)
  obtain ⟨hline, hhighlights⟩ := SourceTree.located_highlights h hfinding
  refine ⟨hline, ?_, hhighlights⟩
  rw [(SourceTree.ofChars_eq_ok_iff.mp h).2]
  exact (LineIndex.place_line_le source.toList _).2

/-- In the second line of a verbatim string, a dollar sign before a hole with a raw string in it. -/
theorem SourceTree.highlights_in_second_line :
    ∃ source tree diagnostics, source = "\ufeff@$\"x\n$\x7b$\"\"\"a\"\"\"\x7d\"" ∧
      SourceTree.ofSource source = .ok tree ∧ tree.analyze .all = .ok diagnostics ∧
      diagnostics.length = 2 ∧ ∀ d ∈ diagnostics,
        d.location.start.line = d.location.stop.line ∧
        d.location.stop.line ≤ tree.lines.lineCount ∧ d.Highlights source.toList tree := by
  have hscan : (SourceTree.ofSource "\ufeff@$\"x\n$\x7b$\"\"\"a\"\"\"\x7d\"").toOption.map
      (fun tree => (tree.findings .all).length) = some 2 := by
    decide +kernel
  obtain ⟨tree, htree, hlength⟩ := exists_ok_of_map hscan
  obtain ⟨diagnostics, hanalyze, hhighlights⟩ := SourceTree.analyze_highlights htree .all
  refine ⟨_, tree, diagnostics, rfl, htree, hanalyze, ?_, hhighlights⟩
  obtain rfl := Except.ok.inj (hanalyze.symm.trans (SourceTree.analyze_eq htree .all))
  have hperm := (Diagnostic.arranged_of_distinct (SourceTree.located_distinct htree .all)).1
  rw [hperm.length_eq, List.length_map]
  exact hlength

end InterpolationLint
