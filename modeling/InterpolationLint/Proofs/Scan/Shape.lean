import InterpolationLint.Proofs.Diagnostic.Highlight

/-!
# The shape of a scanned string

Read from the source, a string is its opening marker, its content and its closing quotes. Its texts
are not empty, stand between holes, and are written as in the source; its holes are written between
their braces.
-/

namespace InterpolationLint

/-! ## Characters of a range -/

def TextRange.Holds (text : List Char) (range : TextRange) (cs : List Char) : Prop :=
  ∃ before after, text = before ++ (cs ++ after) ∧
    range = ⟨before.length, before.length + cs.length⟩

theorem TextRange.Holds.length {text cs : List Char} {range : TextRange}
    (h : range.Holds text cs) : range.length = cs.length ∧ range.stop ≤ text.length := by
  obtain ⟨before, after, rfl, rfl⟩ := h
  simp only [TextRange.length, List.length_append]
  omega

theorem Cursor.Within.holds {text cs : List Char} {c d : Cursor} (hc : c.Within text)
    (h : c.Reads cs d) : TextRange.Holds text ⟨c.offset, d.offset⟩ cs := by
  obtain ⟨before, hc⟩ := hc
  have hahead : text = before ++ c.ahead := hc.ahead
  have hoffset : c.offset = 0 + before.length := hc.offset
  refine ⟨before, d.ahead, ?_, ?_⟩
  · rw [hahead, h.ahead]
  · rw [h.offset, hoffset, Nat.zero_add]

theorem take_of_le_runLength {a : Char} {cs : List Char} {n : Nat} (h : n ≤ runLength a cs) :
    cs.take n = List.replicate n a := by
  conv_lhs => rw [eq_replicate_append a cs]
  rw [List.take_append_of_le_length (by simpa using h), List.take_replicate, Nat.min_eq_left h]

theorem Cursor.Reads.run {c : Cursor} {n : Nat} {a : Char} (h : n ≤ runLength a c.ahead) :
    c.Reads (List.replicate n a) (c.advance n) := by
  rw [← take_of_le_runLength h]
  exact .advance c (Nat.le_trans h (runLength_le a c.ahead))

/-! ## Holes -/

def bracedText (braces : Nat) (inner : List Char) : List Char :=
  List.replicate braces '\x7b' ++ inner ++ List.replicate braces '\x7d'

theorem HoleRun.braced {braces : Nat} {c final : Cursor} {hole : Segment}
    (h : HoleRun braces c hole final) (hbraces : braces ≤ runLength '\x7b' c.ahead) :
    ∃ inner, c.Reads (bracedText braces inner) final := by
  cases h with
  | closed hitems halignment hformat hclose =>
    have hclauses := halignment.reaches.trans (formatClause_reaches hformat)
    obtain ⟨inner, hinner⟩ := hitems.reaches.trans hclauses
    exact ⟨inner, ((Cursor.Reads.run hbraces).trans hinner).trans (.run hclose)⟩

theorem Turns.braced {text : List Char} {kind : StringKind} {c final : Cursor}
    {segments : List Segment} (h : Turns kind c segments final) (hc : c.Within text) :
    ∀ segment ∈ segments, segment.isHole = true →
      ∃ inner, segment.range.Holds text (bracedText kind.braces inner) := by
  have htext : ∀ c d : Cursor, ∀ segment ∈ textBetween c d, segment.isHole = true →
      ∃ inner, segment.range.Holds text (bracedText kind.braces inner) := by
    intro c d segment hmem hhole
    rcases textBetween_cases c d with hnone | ⟨-, hone⟩
    · simp [hnone] at hmem
    · rw [hone] at hmem
      cases List.mem_singleton.mp hmem
      cases hhole
  induction h with
  | close => exact htext _ _
  | @hole c d after final hole segments hrun hread hhole _ ih =>
    have hbraces := (Cursor.fits_of_part hread).2
    have hd := hc.reaches hrun.reaches
    refine List.forall_mem_append.mpr ⟨htext c d, List.forall_mem_cons.mpr ⟨fun _ => ?_, ?_⟩⟩
    · obtain ⟨inner, hinner⟩ := hhole.braced hbraces
      rw [hhole.range_eq]
      exact ⟨inner, hd.holds hinner⟩
    · exact ih (hd.reaches (hhole.reaches hbraces))

/-! ## Strings -/

structure InterpolatedString.Shaped (text : List Char) (node : InterpolatedString) : Prop where
  /-- It is a marker of its kind, the content, and the closing quotes. -/
  delimited : ∃ marker content, node.kind.Marked marker ∧
    node.range.Holds text (marker ++ content ++ List.replicate node.kind.quotes '"') ∧
    node.opening.Holds text marker ∧ node.content.Holds text content
  texts : ∀ written range, .text written range ∈ node.segments →
    written ≠ "" ∧ range.Holds text written.toList
  apart : ∀ before left right after, node.segments = before ++ left :: right :: after →
    left.isHole = true ∨ right.isHole = true
  holes : ∀ segment ∈ node.segments, segment.isHole = true →
    2 * node.kind.braces ≤ segment.range.length ∧
      ∃ inner, segment.range.Holds text (bracedText node.kind.braces inner)

namespace InterpolatedString.ReadFrom

variable {text : List Char} {node : InterpolatedString}

theorem turns (h : node.ReadFrom text) : ∃ c final : Cursor, c.Within text ∧
    c.offset = node.content.start ∧ final.offset = node.content.stop ∧
    Turns node.kind c node.segments final := by
  obtain ⟨hc, hopening, hsegments⟩ := h
  exact ⟨_, _, hc.reaches (.enter _ (marker_le hopening).2), rfl, rfl, hsegments.turns (.refl _)⟩

theorem delimited (h : node.ReadFrom text) : ∃ marker content, node.kind.Marked marker ∧
    node.range.Holds text (marker ++ content ++ List.replicate node.kind.quotes '"') ∧
    node.opening.Holds text marker ∧ node.content.Holds text content := by
  obtain @⟨c, inner, kind, _, segments, hc, hopening, hsegments⟩ := h
  obtain ⟨marker, rest, hahead, rfl, hmarked⟩ := opening?_marked hopening
  have hmarker : c.Reads marker (c.enter marker.length) := by
    have hle : marker.length ≤ c.ahead.length := by simp [hahead]
    have hreads := Cursor.Reads.enter c hle
    rwa [hahead, List.take_left] at hreads
  obtain ⟨content, hcontent⟩ := hsegments.reaches
  have hquotes := Cursor.Reads.run (Cursor.fits_of_part hsegments.closes).2
  refine ⟨marker, content, hmarked, ?_, ?_, ?_⟩
  · exact hc.holds ((hmarker.trans hcontent).trans hquotes)
  · exact hc.holds hmarker
  · exact (hc.reaches ⟨_, hmarker⟩).holds hcontent

theorem shaped (h : node.ReadFrom text) : node.Shaped text where
  delimited := h.delimited
  texts := by
    intro written range hmem
    obtain ⟨c, final, hc, -, -, hturns⟩ := h.turns
    obtain ⟨before, after, hsplit⟩ := List.append_of_mem hmem
    obtain ⟨c', d, hreaches, hturn⟩ := hturns.textTurn hsplit
    have hread := hturn.reads
    constructor
    · rintro rfl
      have hpos := hturn.pos
      have hoffset := hread.offset
      rw [String.toList_empty, List.length_nil] at hoffset
      omega
    · rw [hturn.range]
      exact (hc.reaches hreaches).holds hread
  apart := by
    intro before left right after hsplit
    obtain ⟨c, final, -, -, -, hturns⟩ := h.turns
    cases left with
    | hole => exact .inl rfl
    | text written range =>
      obtain ⟨c', d, -, hturn⟩ := hturns.textTurn hsplit
      rcases hturn.next with ⟨-, hnil, -⟩ | ⟨-, hole, rest, hcons, hhole⟩
      · cases hnil
      · obtain ⟨rfl, -⟩ := List.cons.inj hcons
        exact .inr hhole
  holes := by
    intro segment hmem hhole
    obtain ⟨c, final, hc, -, -, hturns⟩ := h.turns
    obtain ⟨inner, hinner⟩ := hturns.braced hc segment hmem hhole
    refine ⟨?_, inner, hinner⟩
    rw [hinner.length.1, bracedText]
    simp only [List.length_append, List.length_replicate]
    omega

end InterpolatedString.ReadFrom

/-- Every string of a text is written as its marker, its content and its closing quotes, with texts
that are not empty and have holes between them, and holes in braces. -/
theorem SourceTree.nodes_shaped {source : String} {tree : SourceTree}
    (h : SourceTree.ofSource source = .ok tree) :
    ∀ node ∈ tree.nodes, node.Shaped source.toList :=
  fun node hnode => (SourceTree.readFrom h node hnode).shaped

/-- A regular string in a hole of a raw one, whose brace and quote too many are text. -/
theorem SourceTree.nodes_shaped_nested : ∃ source tree,
    source = "$$\"\"\"a\x7b\"b\x7b\x7b\x7b$\"c\x7bd\x7d\"\x7d\x7d\"\"\"\"" ∧
    SourceTree.ofSource source = .ok tree ∧
    tree.nodes.map (fun node => (node.kind, node.segments.map Segment.range)) =
      [(.raw 2 3, [⟨5, 10⟩, ⟨10, 21⟩, ⟨21, 22⟩]), (.regular, [⟨14, 15⟩, ⟨15, 18⟩])] ∧
    ∀ node ∈ tree.nodes, node.Shaped source.toList := by
  have hscan : (SourceTree.ofSource
      "$$\"\"\"a\x7b\"b\x7b\x7b\x7b$\"c\x7bd\x7d\"\x7d\x7d\"\"\"\"").toOption.map
      (fun tree => tree.nodes.map (fun node => (node.kind, node.segments.map Segment.range))) =
      some [(.raw 2 3, [⟨5, 10⟩, ⟨10, 21⟩, ⟨21, 22⟩]), (.regular, [⟨14, 15⟩, ⟨15, 18⟩])] := by
    decide +kernel
  obtain ⟨tree, htree, hnodes⟩ := exists_ok_of_map hscan
  exact ⟨_, tree, rfl, htree, hnodes, SourceTree.nodes_shaped htree⟩

end InterpolationLint
