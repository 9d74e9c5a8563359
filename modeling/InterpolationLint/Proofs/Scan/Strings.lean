import InterpolationLint.Tree.Nodes
import InterpolationLint.Proofs.Scan.Derivation
import InterpolationLint.Proofs.Tree.Tiling

/-!
# Strings of a scanned text

Every interpolated string of a scanned tree, however deep it lies, was read by one run over its
segments that began behind an opening marker somewhere in the text. What holds of such a run holds of
all strings; here it is that the segments tile the content, and that they are the texts between the
holes, each read in one run, and the holes.
-/

namespace InterpolationLint

/-! ## Strings of composed expressions -/

theorem nodes_juxtapose (items : List Expr) (offset : Nat) :
    (juxtapose items offset).nodes = Expr.nodesOf items := by
  cases items with
  | nil => rfl
  | cons first rest =>
    cases rest with
    | nil => simp [juxtapose, Expr.nodesOf]
    | cons second rest => simp [juxtapose, Expr.nodes]

def Segment.nodes : Segment → List InterpolatedString
  | .text _ _ => []
  | .hole _ expression alignment _ => expression.nodes ++ Expr.nodesOf alignment.toList

theorem nodesOf_cons (segment : Segment) (rest : List Segment) :
    Segment.nodesOf (segment :: rest) = segment.nodes ++ Segment.nodesOf rest := by
  cases segment with
  | text written range => rfl
  | hole range expression alignment format =>
    cases alignment with
    | none => simp [Segment.nodesOf, Segment.nodes, Expr.nodesOf]
    | some alignment => simp [Segment.nodesOf, Segment.nodes, Expr.nodesOf]

theorem nodesOf_textBetween_append (start stop : Cursor) (segments : List Segment) :
    Segment.nodesOf (textBetween start stop ++ segments) = Segment.nodesOf segments := by
  unfold textBetween
  split
  · simp [Segment.nodesOf]
  · rfl

/-! ## Strings are counted -/

theorem formatClause_opened {c final : Cursor} {format : Option TextRange}
    (h : formatClause c = (format, final)) : final.opened = c.opened := by
  unfold formatClause at h
  split at h
  · cases h
    rfl
  · cases h
    rfl

mutual

theorem ItemsRun.opened {stops : List Char} {c final : Cursor} {items : List Expr}
    (h : ItemsRun stops c items final) :
    final.opened = c.opened + (Expr.nodesOf items).length := by
  match h with
  | .stop _ => rfl
  | .trivia _ h => exact h.opened
  | .literal _ h => exact h.opened
  | .code _ h => exact h.opened
  | .group _ hchildren _ h =>
    have hinner := hchildren.opened
    have hfinal := h.opened
    simp only [Cursor.advance_opened] at hinner hfinal
    simp only [Expr.nodesOf, Expr.nodes, List.length_append]
    omega
  | .string _ hsegments h =>
    have hinner := hsegments.opened
    have hfinal := h.opened
    simp only [Cursor.advance_opened, Cursor.enter_opened] at hinner hfinal
    simp only [Expr.nodesOf, Expr.nodes, List.length_append, List.length_cons]
    omega

theorem SegmentsRun.opened {kind : StringKind} {pending c final : Cursor}
    {segments : List Segment} (h : SegmentsRun kind pending c segments final) :
    final.opened = c.opened + (Segment.nodesOf segments).length := by
  match h with
  | .close _ =>
    have hnone := nodesOf_textBetween_append pending c []
    rw [List.append_nil] at hnone
    rw [hnone]
    rfl
  | .text _ h => exact h.opened
  | .hole _ hhole h =>
    have hafter := hhole.opened
    have hfinal := h.opened
    rw [nodesOf_textBetween_append, nodesOf_cons, List.length_append]
    omega

theorem HoleRun.opened {braces : Nat} {c final : Cursor} {hole : Segment}
    (h : HoleRun braces c hole final) : final.opened = c.opened + hole.nodes.length := by
  match h with
  | .closed hitems halignment hformat _ =>
    have h₁ := hitems.opened
    have h₂ := halignment.opened
    have h₃ := formatClause_opened hformat
    simp only [Cursor.advance_opened] at h₁ ⊢
    simp only [Segment.nodes, nodes_juxtapose, List.length_append]
    omega

theorem AlignmentRun.opened {c final : Cursor} {alignment : Option Expr}
    (h : AlignmentRun c alignment final) :
    final.opened = c.opened + (Expr.nodesOf alignment.toList).length := by
  match h with
  | .absent _ => rfl
  | .present _ h =>
    have hfinal := h.opened
    simp only [Cursor.advance_opened] at hfinal
    simp only [Option.toList, Expr.nodesOf, List.append_nil, nodes_juxtapose]
    exact hfinal

end

/-! ## Where a string was read -/

/-- A string as one run over its segments gives it, at a place of `text` where its opening marker
stands. -/
inductive InterpolatedString.ReadFrom (text : List Char) : InterpolatedString → Prop
  | run {c inner : Cursor} {kind marker segments} : c.Within text →
      opening? c.ahead = some (kind, marker) →
      SegmentsRun kind (c.enter marker) (c.enter marker) segments inner →
      ReadFrom text ⟨c.opened, kind, ⟨c.offset, inner.offset + kind.quotes⟩,
        ⟨c.offset + marker, inner.offset⟩, segments⟩

section
variable {text : List Char}

mutual

theorem ItemsRun.readFrom {stops : List Char} {c final : Cursor} {items : List Expr}
    (h : ItemsRun stops c items final) (hc : c.Within text) :
    ∀ node ∈ Expr.nodesOf items, node.ReadFrom text := by
  intro node hnode
  match h with
  | .stop _ => simp [Expr.nodesOf] at hnode
  | .trivia hread h => exact h.readFrom (hc.reaches (Cursor.reaches_of_read hread)) node hnode
  | .literal hread h =>
    simp only [Expr.nodesOf, Expr.nodes, List.nil_append] at hnode
    exact h.readFrom (hc.reaches (Cursor.reaches_of_read hread)) node hnode
  | .code hread h =>
    simp only [Expr.nodesOf, Expr.nodes, List.nil_append] at hnode
    exact h.readFrom (hc.reaches (Cursor.reaches_of_read hread)) node hnode
  | .group hread hchildren hclose h =>
    have hinside := hc.reaches (Cursor.reaches_of_read hread)
    have hinner := hinside.reaches hchildren.reaches
    simp only [Expr.nodesOf, Expr.nodes, List.mem_append] at hnode
    rcases hnode with hnode | hnode
    · exact hchildren.readFrom hinside node hnode
    · exact h.readFrom (hinner.reaches (.advance _ (one_le_of_head? hclose))) node hnode
  | .string hread hsegments h =>
    have hmarker := marker_le (Cursor.fits_of_read hread)
    have hinside := hc.reaches (Cursor.Reaches.enter c hmarker.2)
    have hquotes := Cursor.reaches_run (Cursor.fits_of_part hsegments.closes).2
    have hafter := hinside.reaches (hsegments.reaches.trans hquotes)
    simp only [Expr.nodesOf, Expr.nodes, List.cons_append, List.mem_cons, List.mem_append] at hnode
    rcases hnode with rfl | hnode | hnode
    · exact .run hc (Cursor.fits_of_read hread) hsegments
    · exact hsegments.readFrom hinside node hnode
    · exact h.readFrom hafter node hnode

theorem SegmentsRun.readFrom {kind : StringKind} {pending c final : Cursor}
    {segments : List Segment} (h : SegmentsRun kind pending c segments final)
    (hc : c.Within text) : ∀ node ∈ Segment.nodesOf segments, node.ReadFrom text := by
  intro node hnode
  match h with
  | .close _ =>
    have hnil := nodesOf_textBetween_append pending c []
    rw [List.append_nil] at hnil
    rw [hnil] at hnode
    cases hnode
  | .text hread h =>
    have hfits := Cursor.fits_of_part hread
    exact h.readFrom (hc.reaches (.advance c hfits.2)) node hnode
  | .hole hread hhole h =>
    have hfits := Cursor.fits_of_part hread
    rw [nodesOf_textBetween_append, nodesOf_cons, List.mem_append] at hnode
    rcases hnode with hnode | hnode
    · exact hhole.readFrom hfits.2 hc node hnode
    · exact h.readFrom (hc.reaches (hhole.reaches hfits.2)) node hnode

theorem HoleRun.readFrom {braces : Nat} {c final : Cursor} {hole : Segment}
    (h : HoleRun braces c hole final) (hbraces : braces ≤ runLength '\x7b' c.ahead)
    (hc : c.Within text) : ∀ node ∈ hole.nodes, node.ReadFrom text := by
  intro node hnode
  match h with
  | .closed hitems halignment _ _ =>
    have hinside := hc.reaches (Cursor.reaches_run hbraces)
    simp only [Segment.nodes, nodes_juxtapose, List.mem_append] at hnode
    rcases hnode with hnode | hnode
    · exact hitems.readFrom hinside node hnode
    · exact halignment.readFrom (hinside.reaches hitems.reaches) node hnode

theorem AlignmentRun.readFrom {c final : Cursor} {alignment : Option Expr}
    (h : AlignmentRun c alignment final) (hc : c.Within text) :
    ∀ node ∈ Expr.nodesOf alignment.toList, node.ReadFrom text := by
  intro node hnode
  match h with
  | .absent _ => simp [Expr.nodesOf] at hnode
  | .present hcomma h =>
    simp only [Option.toList_some, Expr.nodesOf, nodes_juxtapose, List.append_nil] at hnode
    exact h.readFrom (hc.reaches (.advance c (one_le_of_head? hcomma))) node hnode

end

end

/-! ## Segments tile the content -/

theorem tiles_textBetween {start stop : Cursor} (h : start.Reaches stop) {segments : List Segment}
    {b : Nat} (htiles : Segment.Tiles stop.offset segments b) :
    Segment.Tiles start.offset (textBetween start stop ++ segments) b := by
  have hle := h.offset_le
  obtain ⟨read, h⟩ := h
  have hoffset := h.offset
  unfold textBetween
  split
  · refine ⟨rfl, hle, ?_, htiles⟩
    rw [h.textUpTo]
    simp only [Segment.textFault?, String.length_ofList, TextRange.length]
    rw [if_pos (by omega)]
  · rw [List.nil_append, show start.offset = stop.offset by omega]
    exact htiles

theorem HoleRun.range_eq {braces : Nat} {c final : Cursor} {hole : Segment}
    (h : HoleRun braces c hole final) : hole.range = ⟨c.offset, final.offset⟩ := by
  match h with
  | .closed _ _ _ _ => rfl

theorem HoleRun.textFault {braces : Nat} {c final : Cursor} {hole : Segment}
    (h : HoleRun braces c hole final) : hole.textFault? = none := by
  match h with
  | .closed _ _ _ _ => rfl

theorem SegmentsRun.tiles {kind : StringKind} {pending c final : Cursor} {segments : List Segment}
    (h : SegmentsRun kind pending c segments final) (hpending : pending.Reaches c) :
    Segment.Tiles pending.offset segments final.offset := by
  match h with
  | .close _ =>
    have htiles : Segment.Tiles c.offset [] c.offset := rfl
    simpa using tiles_textBetween hpending htiles
  | .text hread h =>
    exact h.tiles (hpending.trans (.advance c (Cursor.fits_of_part hread).2))
  | @SegmentsRun.hole _ _ _ embedded after rest _ hread hhole h =>
    have hreaches := hhole.reaches (Cursor.fits_of_part hread).2
    have hrange := hhole.range_eq
    have hrest : Segment.Tiles c.offset (embedded :: rest) final.offset := by
      refine ⟨by rw [hrange], ?_, hhole.textFault, ?_⟩
      · rw [hrange]
        exact hreaches.offset_le
      · rw [hrange]
        exact h.tiles (.refl after)
    exact tiles_textBetween hpending hrest

namespace InterpolatedString.ReadFrom

variable {text : List Char} {node : InterpolatedString}

theorem tiles (h : node.ReadFrom text) :
    Segment.Tiles node.content.start node.segments node.content.stop := by
  obtain ⟨_, _, hsegments⟩ := h
  exact hsegments.tiles (.refl _)

theorem range_contains (h : node.ReadFrom text) : node.range.contains node.content = true := by
  obtain ⟨_, _, hsegments⟩ := h
  simp [TextRange.contains]

theorem stop_le (h : node.ReadFrom text) : node.range.stop ≤ text.length := by
  obtain ⟨hc, hopening, hsegments⟩ := h
  have hinner := (hc.reaches (.enter _ (marker_le hopening).2)).reaches hsegments.reaches
  exact (hinner.reaches (Cursor.reaches_run (Cursor.fits_of_part hsegments.closes).2)).offset_le

end InterpolatedString.ReadFrom

/-! ## Texts and holes in turn -/

inductive TextRun (kind : StringKind) : Cursor → Cursor → Prop
  | refl (c : Cursor) : TextRun kind c c
  | step {c d : Cursor} {length : Nat} : StringPart.read kind c.ahead = .text length →
      TextRun kind (c.advance length) d → TextRun kind c d

namespace TextRun

variable {kind : StringKind} {c d : Cursor}

theorem reaches (h : TextRun kind c d) : c.Reaches d := by
  induction h with
  | refl c => exact .refl c
  | step hread _ ih => exact (Cursor.Reaches.advance _ (Cursor.fits_of_part hread).2).trans ih

theorem snoc {length : Nat} (h : TextRun kind c d)
    (hread : StringPart.read kind d.ahead = .text length) : TextRun kind c (d.advance length) := by
  induction h with
  | refl c => exact .step hread (.refl _)
  | step hfirst _ ih => exact .step hfirst (ih hread)

/-- Where no text stands there is none to be read. -/
theorem eq_of_read {part : StringPart} (h : TextRun kind c d)
    (hread : StringPart.read kind c.ahead = part) (hpart : ∀ length, part ≠ .text length) :
    d = c := by
  cases h with
  | refl => rfl
  | step hfirst _ => exact absurd (hread.symm.trans hfirst) (hpart _)

end TextRun

/-- Segments read from one place up to the closing quotes, a text and a hole at a time. -/
inductive Turns (kind : StringKind) : Cursor → List Segment → Cursor → Prop
  | close {c d : Cursor} : TextRun kind c d → StringPart.read kind d.ahead = .close →
      Turns kind c (textBetween c d) d
  | hole {c d after final : Cursor} {hole : Segment} {segments : List Segment} :
      TextRun kind c d → StringPart.read kind d.ahead = .hole →
      HoleRun kind.braces d hole after → Turns kind after segments final →
      Turns kind c (textBetween c d ++ hole :: segments) final

theorem SegmentsRun.turns {kind : StringKind} {pending c final : Cursor} {segments : List Segment}
    (h : SegmentsRun kind pending c segments final) (htext : TextRun kind pending c) :
    Turns kind pending segments final := by
  match h with
  | .close hread => exact .close htext hread
  | .text hread h => exact h.turns (htext.snoc hread)
  | .hole hread hhole h => exact .hole htext hread hhole (h.turns (.refl _))

theorem HoleRun.isHole {braces : Nat} {c final : Cursor} {hole : Segment}
    (h : HoleRun braces c hole final) : hole.isHole = true := by
  cases h with
  | closed => rfl

/-- A text segment is what was read between two places. At the second the string is closed and has
no more segments, or its next segment begins, which is a hole. -/
structure TextTurn (kind : StringKind) (written : String) (range : TextRange)
    (next : List Segment) (c d final : Cursor) : Prop where
  run : TextRun kind c d
  written : written.toList = c.textUpTo d
  range : range = ⟨c.offset, d.offset⟩
  pos : c.offset < d.offset
  next : StringPart.read kind d.ahead = .close ∧ next = [] ∧ d = final ∨
    StringPart.read kind d.ahead = .hole ∧ ∃ hole rest, next = hole :: rest ∧ hole.isHole = true

theorem TextTurn.reads {kind : StringKind} {written : String} {range : TextRange}
    {next : List Segment} {c d final : Cursor} (h : TextTurn kind written range next c d final) :
    c.Reads written.toList d := by
  obtain ⟨read, hread⟩ := h.run.reaches
  rw [h.written, hread.textUpTo]
  exact hread

theorem textBetween_cases (c d : Cursor) : textBetween c d = [] ∨
    c.offset < d.offset ∧ textBetween c d =
      [.text (String.ofList (c.textUpTo d)) ⟨c.offset, d.offset⟩] := by
  unfold textBetween
  by_cases hlt : c.offset < d.offset
  · exact .inr ⟨hlt, if_pos hlt⟩
  · exact .inl (if_neg hlt)

theorem Turns.textTurn {kind : StringKind} {c final : Cursor} {segments : List Segment}
    (h : Turns kind c segments final) {before after : List Segment} {written : String}
    {range : TextRange} (hsplit : segments = before ++ .text written range :: after) :
    ∃ c' d, c.Reaches c' ∧ TextTurn kind written range after c' d final := by
  induction h generalizing before with
  | @close c d htext hread =>
    rcases textBetween_cases c d with hnone | ⟨hlt, hone⟩
    · simp [hnone] at hsplit
    · rw [hone] at hsplit
      cases before with
      | nil =>
        obtain ⟨hfirst, rfl⟩ := List.cons.inj hsplit
        cases hfirst
        exact ⟨c, d, .refl c, htext, String.toList_ofList, rfl, hlt, .inl ⟨hread, rfl, rfl⟩⟩
      | cons => simp at hsplit
  | @hole c d after' final hole segments htext hread hhole _ ih =>
    -- behind the hole, which is no text, the rest has its turns
    have hbehind : ∀ before', hole :: segments = before' ++ .text written range :: after →
        ∃ c' d, c.Reaches c' ∧ TextTurn kind written range after c' d final := by
      intro before' hsplit
      cases before' with
      | nil =>
        obtain ⟨rfl, -⟩ := List.cons.inj hsplit
        cases hhole.isHole
      | cons _ before' =>
        obtain ⟨c', d', hreaches, hturn⟩ := ih (List.cons.inj hsplit).2
        have hhole := hhole.reaches (Cursor.fits_of_part hread).2
        exact ⟨c', d', htext.reaches.trans (hhole.trans hreaches), hturn⟩
    rcases textBetween_cases c d with hnone | ⟨hlt, hone⟩
    · rw [hnone] at hsplit
      exact hbehind before hsplit
    · rw [hone] at hsplit
      cases before with
      | nil =>
        obtain ⟨hfirst, rfl⟩ := List.cons.inj hsplit
        cases hfirst
        exact ⟨c, d, .refl c, htext, String.toList_ofList, rfl, hlt,
          .inr ⟨hread, _, _, rfl, hhole.isHole⟩⟩
      | cons _ before => exact hbehind before (List.cons.inj hsplit).2

end InterpolationLint
