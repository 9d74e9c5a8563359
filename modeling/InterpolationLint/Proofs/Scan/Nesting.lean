import InterpolationLint.Proofs.Scan.Layout

/-!
# How strings nest

The strings of a scanned tree are counted in the order in which they open, an outer one before
those in its holes. Of any two the later one stands behind the earlier or in one of its holes, so
they never overlap in another way.
-/

namespace InterpolationLint

/-! ## Strings that occur in a tree -/

def Segment.clauses : Segment → List Expr
  | .text _ _ => []
  | .hole _ expression alignment _ => expression :: alignment.toList

/-- A string occurs in an expression: as the expression itself, in a group, or in a hole. -/
inductive Expr.Occurs (node : InterpolatedString) : Expr → Prop
  | self : Expr.Occurs node (.interpolated node)
  | child {delimiter range children child} : child ∈ children → child.Occurs node →
      Expr.Occurs node (.group delimiter range children)
  | clause {outer : InterpolatedString} {segment clause} : segment ∈ outer.segments →
      clause ∈ segment.clauses → clause.Occurs node → Expr.Occurs node (.interpolated outer)

theorem mem_nodesOf_iff {node : InterpolatedString} {items : List Expr} :
    node ∈ Expr.nodesOf items ↔ ∃ item ∈ items, node ∈ item.nodes := by
  induction items with
  | nil => simp [Expr.nodesOf]
  | cons item items ih => simp [Expr.nodesOf, ih]

theorem mem_segment_nodesOf_iff {node : InterpolatedString} {segments : List Segment} :
    node ∈ Segment.nodesOf segments ↔ ∃ segment ∈ segments, node ∈ segment.nodes := by
  induction segments with
  | nil => simp [Segment.nodesOf]
  | cons segment segments ih => simp [nodesOf_cons, ih]

theorem nodes_eq_clauses (segment : Segment) : segment.nodes = Expr.nodesOf segment.clauses := by
  cases segment with
  | text => rfl
  | hole => simp [Segment.nodes, Segment.clauses, Expr.nodesOf]

theorem nodes_interpolated (outer : InterpolatedString) :
    (Expr.interpolated outer).nodes = outer :: Segment.nodesOf outer.segments := by
  cases outer
  rw [Expr.nodes]

theorem Expr.Occurs.mem_nodes {node : InterpolatedString} {expr : Expr} (h : expr.Occurs node) :
    node ∈ expr.nodes := by
  induction h with
  | self => simp [nodes_interpolated]
  | child hchild _ ih =>
    rw [Expr.nodes]
    exact mem_nodesOf_iff.mpr ⟨_, hchild, ih⟩
  | clause hsegment hclause _ ih =>
    rw [nodes_interpolated]
    refine List.mem_cons_of_mem _ (mem_segment_nodesOf_iff.mpr ⟨_, hsegment, ?_⟩)
    rw [nodes_eq_clauses]
    exact mem_nodesOf_iff.mpr ⟨_, hclause, ih⟩

mutual

theorem Expr.occurs_of_mem {node : InterpolatedString} :
    ∀ expr : Expr, node ∈ expr.nodes → expr.Occurs node
  | .interpolated ⟨id, kind, range, content, segments⟩, h => by
    rw [Expr.nodes] at h
    rcases List.mem_cons.mp h with rfl | h
    · exact .self
    · obtain ⟨segment, hsegment, clause, hclause, hoccurs⟩ := Segment.occurs_of_mem segments h
      exact .clause hsegment hclause hoccurs
  | .literal _, h => by simp [Expr.nodes] at h
  | .code _, h => by simp [Expr.nodes] at h
  | .group _ _ children, h => by
    rw [Expr.nodes] at h
    obtain ⟨child, hchild, hoccurs⟩ := Expr.occurs_of_mem_all children h
    exact .child hchild hoccurs

theorem Expr.occurs_of_mem_all {node : InterpolatedString} :
    ∀ items : List Expr, node ∈ Expr.nodesOf items → ∃ item ∈ items, item.Occurs node
  | [], h => by simp [Expr.nodesOf] at h
  | item :: items, h => by
    rw [Expr.nodesOf] at h
    rcases List.mem_append.mp h with h | h
    · exact ⟨item, List.mem_cons_self, Expr.occurs_of_mem item h⟩
    · obtain ⟨other, hmem, hoccurs⟩ := Expr.occurs_of_mem_all items h
      exact ⟨other, List.mem_cons_of_mem _ hmem, hoccurs⟩

theorem Segment.occurs_of_mem {node : InterpolatedString} :
    ∀ segments : List Segment, node ∈ Segment.nodesOf segments →
      ∃ segment ∈ segments, ∃ clause ∈ segment.clauses, clause.Occurs node
  | [], h => by simp [Segment.nodesOf] at h
  | .text _ _ :: segments, h => by
    rw [Segment.nodesOf] at h
    obtain ⟨segment, hmem, hclauses⟩ := Segment.occurs_of_mem segments h
    exact ⟨segment, List.mem_cons_of_mem _ hmem, hclauses⟩
  | .hole _ expression none _ :: segments, h => by
    rw [Segment.nodesOf] at h
    rcases List.mem_append.mp h with h | h
    · have hoccurs := Expr.occurs_of_mem expression h
      exact ⟨_, List.mem_cons_self, expression, List.mem_cons_self, hoccurs⟩
    · obtain ⟨segment, hmem, hclauses⟩ := Segment.occurs_of_mem segments h
      exact ⟨segment, List.mem_cons_of_mem _ hmem, hclauses⟩
  | .hole _ expression (some alignment) _ :: segments, h => by
    rw [Segment.nodesOf, List.mem_append, List.mem_append] at h
    rcases h with h | h | h
    · have hoccurs := Expr.occurs_of_mem expression h
      exact ⟨_, List.mem_cons_self, expression, List.mem_cons_self, hoccurs⟩
    · have hoccurs := Expr.occurs_of_mem alignment h
      exact ⟨_, List.mem_cons_self, alignment, by simp [Segment.clauses], hoccurs⟩
    · obtain ⟨segment, hmem, hclauses⟩ := Segment.occurs_of_mem segments h
      exact ⟨segment, List.mem_cons_of_mem _ hmem, hclauses⟩

end

theorem SourceTree.mem_nodes_iff {tree : SourceTree} {node : InterpolatedString} :
    node ∈ tree.nodes ↔ ∃ item ∈ tree.items, item.Occurs node := by
  constructor
  · exact Expr.occurs_of_mem_all tree.items
  · rintro ⟨item, hitem, hoccurs⟩
    exact mem_nodesOf_iff.mpr ⟨item, hitem, hoccurs.mem_nodes⟩

/-! ## One string in a hole of another -/

/-- `range` lies in a hole, behind its opening braces and before its closing ones. -/
structure Segment.Between (text : List Char) (braces : Nat) (hole : Segment) (range : TextRange) :
    Prop where
  isHole : hole.isHole = true
  braced : 1 ≤ braces
  opened : ∀ i, i < braces → text[hole.range.start + i]? = some '\x7b'
  closed : ∀ i, i < braces → text[hole.range.stop - braces + i]? = some '\x7d'
  behind : hole.range.start + braces ≤ range.start
  before : range.stop + braces ≤ hole.range.stop

/-- `inner` lies between the braces of a hole of `outer`, and in no other segment. -/
def InterpolatedString.Encloses (text : List Char) (outer inner : InterpolatedString) : Prop :=
  ∃ (k : Nat) (hole : Segment), outer.segments[k]? = some hole ∧
    hole.Between text outer.kind.braces inner.range ∧
    ∀ (j : Nat) (other : Segment), outer.segments[j]? = some other →
      other.range.contains inner.range = true → j = k

theorem encloses_of_between {text : List Char} {outer inner : InterpolatedString}
    (htiles : Segment.Tiles outer.content.start outer.segments outer.content.stop)
    (hbetween : ∀ segment ∈ outer.segments, ∀ node ∈ segment.nodes,
      segment.Between text outer.kind.braces node.range)
    (hmem : inner ∈ Segment.nodesOf outer.segments)
    (hpos : inner.range.start < inner.range.stop) : outer.Encloses text inner := by
  obtain ⟨hole, hhole, hinner⟩ := mem_segment_nodesOf_iff.mp hmem
  obtain ⟨k, hk⟩ := List.mem_iff_getElem?.mp hhole
  have hinside := hbetween hole hhole inner hinner
  refine ⟨k, hole, hk, hinside, ?_⟩
  intro j other hj hcontains
  have hbehind := hinside.behind
  have hbefore := hinside.before
  simp only [TextRange.contains, Bool.and_eq_true, decide_eq_true_eq] at hcontains
  have hfirst : hole.range.start ≤ inner.range.start ∧ inner.range.start < hole.range.stop := by
    omega
  exact htiles.index_unique hj hk (by omega) hfirst

/-! ## Strings in order -/

/-- Strings between two offsets, when `opened` strings open before them. -/
structure Nested (text : List Char) (opened a : Nat) (nodes : List InterpolatedString) (b : Nat) :
    Prop where
  counted : nodes.map (·.id) = List.range' opened nodes.length
  inside : ∀ node ∈ nodes,
    a ≤ node.range.start ∧ node.range.start < node.range.stop ∧ node.range.stop ≤ b
  ordered : nodes.Pairwise fun node next => node.range.start < next.range.start
  laminar : nodes.Pairwise fun node next =>
    node.range.stop ≤ next.range.start ∨ node.Encloses text next

namespace Nested

variable {text : List Char} {opened a b : Nat}

theorem nil : Nested text opened a [] b := ⟨rfl, by simp, .nil, .nil⟩

theorem widen {a' b' : Nat} {nodes : List InterpolatedString} (h : Nested text opened a nodes b)
    (ha : a' ≤ a) (hb : b ≤ b') : Nested text opened a' nodes b' where
  counted := h.counted
  inside := by
    intro node hmem
    have := h.inside node hmem
    omega
  ordered := h.ordered
  laminar := h.laminar

theorem append {m n : Nat} {xs ys : List InterpolatedString} (hx : Nested text opened a xs m)
    (hy : Nested text (opened + xs.length) n ys b) (ha : a ≤ n) (hmn : m ≤ n) (hb : m ≤ b) :
    Nested text opened a (xs ++ ys) b where
  counted := by
    rw [List.map_append, hx.counted, hy.counted, List.length_append, List.range'_append_1]
  inside := by
    intro node hmem
    rcases List.mem_append.mp hmem with hmem | hmem
    · have := hx.inside node hmem
      omega
    · have := hy.inside node hmem
      omega
  ordered := by
    refine List.pairwise_append.mpr ⟨hx.ordered, hy.ordered, ?_⟩
    intro x hxm y hym
    have := hx.inside x hxm
    have := hy.inside y hym
    omega
  laminar := by
    refine List.pairwise_append.mpr ⟨hx.laminar, hy.laminar, ?_⟩
    intro x hxm y hym
    have := hx.inside x hxm
    have := hy.inside y hym
    exact .inl (by omega)

/-- A string before those in its holes. -/
theorem cons {outer : InterpolatedString} {nodes : List InterpolatedString}
    (hid : outer.id = opened) (hrange : outer.range = ⟨a, b⟩) (hcontent : a < outer.content.start)
    (hstop : outer.content.stop ≤ b)
    (hordered : outer.content.start ≤ outer.content.stop)
    (h : Nested text (opened + 1) outer.content.start nodes outer.content.stop)
    (hencloses : ∀ node ∈ nodes, outer.Encloses text node) :
    Nested text opened a (outer :: nodes) b where
  counted := by
    rw [List.map_cons, h.counted, hid, List.length_cons, List.range'_succ]
  inside := by
    refine List.forall_mem_cons.mpr ⟨?_, ?_⟩
    · rw [hrange]
      exact ⟨Nat.le_refl a, by show a < b; omega, Nat.le_refl b⟩
    · intro node hmem
      have := h.inside node hmem
      omega
  ordered := by
    refine List.pairwise_cons.mpr ⟨?_, h.ordered⟩
    intro node hmem
    rw [hrange]
    exact Nat.lt_of_lt_of_le hcontent (h.inside node hmem).1
  laminar := List.pairwise_cons.mpr ⟨fun node hmem => .inr (hencloses node hmem), h.laminar⟩

end Nested

/-! ## Runs -/

section
variable {text : List Char}

theorem nodes_of_mem_textBetween {start stop : Cursor} {segment : Segment}
    (h : segment ∈ textBetween start stop) : segment.nodes = [] := by
  unfold textBetween at h
  split at h
  · rw [List.mem_singleton.mp h]
    rfl
  · cases h

theorem HoleRun.between {braces : Nat} {c final : Cursor} {hole : Segment} {range : TextRange}
    (h : HoleRun braces c hole final) (hbraces : 1 ≤ braces ∧ braces ≤ runLength '\x7b' c.ahead)
    (hc : c.Within text) (hrange : c.offset + braces ≤ range.start ∧
      range.start < range.stop ∧ range.stop ≤ final.offset - braces) :
    hole.Between text braces range := by
  match h with
  | @HoleRun.closed _ _ _ _ _ _ _ c₃ hitems halignment hformat hclose =>
    have hclauses := halignment.reaches.trans (formatClause_reaches hformat)
    have hend := hc.reaches ((Cursor.reaches_run hbraces.2).trans (hitems.reaches.trans hclauses))
    rw [Cursor.advance_offset, Nat.add_sub_cancel] at hrange
    refine ⟨rfl, hbraces.1, hc.getElem?_run hbraces.2, ?_, hrange.1,
      Nat.add_le_add_right hrange.2.2 braces⟩
    show ∀ i, i < braces → text[c₃.offset + braces - braces + i]? = some '\x7d'
    rw [Nat.add_sub_cancel]
    exact hend.getElem?_run hclose

mutual

theorem ItemsRun.nested {stops : List Char} {c final : Cursor} {items : List Expr}
    (h : ItemsRun stops c items final) (hc : c.Within text) :
    Nested text c.opened c.offset (Expr.nodesOf items) final.offset := by
  match h with
  | .stop _ => exact .nil
  | .trivia hread h =>
    have hmove := Cursor.reaches_of_read hread
    exact (h.nested (hc.reaches hmove)).widen hmove.offset_le (Nat.le_refl _)
  | .literal hread h =>
    have hmove := Cursor.reaches_of_read hread
    exact (h.nested (hc.reaches hmove)).widen hmove.offset_le (Nat.le_refl _)
  | .code hread h =>
    have hmove := Cursor.reaches_of_read hread
    exact (h.nested (hc.reaches hmove)).widen hmove.offset_le (Nat.le_refl _)
  | @ItemsRun.group _ _ _ _ _ children inner _ _ hread hchildren hclose h =>
    have hmove := Cursor.reaches_of_read hread
    have hinner := hmove.trans hchildren.reaches
    have hleave := Cursor.Reaches.advance inner (one_le_of_head? hclose)
    have hinside := hchildren.nested (hc.reaches hmove)
    have hrest := h.nested (hc.reaches (hinner.trans hleave))
    rw [Cursor.advance_opened, hchildren.opened] at hrest
    have hstart := hinner.offset_le
    have hend := hleave.offset_le
    have hfinal := h.reaches.offset_le
    simp only [Expr.nodesOf, Expr.nodes]
    exact (hinside.widen hmove.offset_le (Nat.le_refl _)).append hrest (by omega) hend (by omega)
  | @ItemsRun.string _ _ kind marker segments inner _ _ hread hsegments h =>
    have hmarker := marker_le (Cursor.fits_of_read hread)
    have henter := Cursor.Reaches.enter c hmarker.2
    have hquotes := Cursor.reaches_run (Cursor.fits_of_part hsegments.closes).2
    have hrest := h.nested (hc.reaches ((henter.trans hsegments.reaches).trans hquotes))
    obtain ⟨hinside, hbetween⟩ := hsegments.nested (hc.reaches henter)
    have htiles := hsegments.tiles (.refl _)
    have hle := hsegments.reaches.offset_le
    have hfinal := h.reaches.offset_le
    rw [Cursor.advance_opened, hsegments.opened] at hrest
    simp only [Cursor.enter_offset, Cursor.advance_offset] at *
    rw [Expr.nodesOf, nodes_interpolated]
    refine Nested.append (m := inner.offset + kind.quotes) (.cons rfl rfl ?_ ?_ hle hinside ?_) ?_
      (by omega) (Nat.le_refl _) hfinal
    · show c.offset < c.offset + marker
      omega
    · show inner.offset ≤ inner.offset + kind.quotes
      omega
    · intro node hmem
      exact encloses_of_between htiles hbetween hmem (hinside.inside node hmem).2.1
    · rw [List.length_cons, Nat.add_comm _ 1, ← Nat.add_assoc]
      exact hrest

theorem SegmentsRun.nested {kind : StringKind} {pending c final : Cursor}
    {segments : List Segment} (h : SegmentsRun kind pending c segments final)
    (hc : c.Within text) :
    Nested text c.opened c.offset (Segment.nodesOf segments) final.offset ∧
      ∀ segment ∈ segments, ∀ node ∈ segment.nodes,
        segment.Between text kind.braces node.range := by
  match h with
  | .close _ =>
    have hnone := nodesOf_textBetween_append pending c []
    rw [List.append_nil] at hnone
    refine ⟨hnone ▸ .nil, ?_⟩
    intro segment hmem node hnode
    simp [nodes_of_mem_textBetween hmem] at hnode
  | .text hread h =>
    have hmove := Cursor.Reaches.advance c (Cursor.fits_of_part hread).2
    obtain ⟨hrest, hbetween⟩ := h.nested (hc.reaches hmove)
    exact ⟨hrest.widen hmove.offset_le (Nat.le_refl _), hbetween⟩
  | @SegmentsRun.hole _ _ _ embedded after rest _ hread hhole h =>
    have hbraces := Cursor.fits_of_part hread
    have hmove := hhole.reaches hbraces.2
    have hinside := hhole.nested hbraces.2 hc
    obtain ⟨hrest, hbetween⟩ := h.nested (hc.reaches hmove)
    constructor
    · have hle := h.reaches.offset_le
      have hstart := hmove.offset_le
      rw [hhole.opened] at hrest
      rw [nodesOf_textBetween_append, nodesOf_cons]
      exact (hinside.widen (Nat.le_add_right _ _) (Nat.sub_le _ _)).append hrest hstart
        (Nat.le_refl _) hle
    · intro segment hmem node hnode
      rcases List.mem_append.mp hmem with hmem | hmem
      · simp [nodes_of_mem_textBetween hmem] at hnode
      · rcases List.mem_cons.mp hmem with rfl | hmem
        · exact hhole.between hbraces hc (hinside.inside node hnode)
        · exact hbetween segment hmem node hnode

theorem HoleRun.nested {braces : Nat} {c final : Cursor} {hole : Segment}
    (h : HoleRun braces c hole final) (hbraces : braces ≤ runLength '\x7b' c.ahead)
    (hc : c.Within text) :
    Nested text c.opened (c.offset + braces) hole.nodes (final.offset - braces) := by
  match h with
  | .closed hitems halignment hformat hclose =>
    have hinside := hc.reaches (Cursor.reaches_run hbraces)
    have hexpression := hitems.nested hinside
    have hclause := halignment.nested (hinside.reaches hitems.reaches)
    have hle := hitems.reaches.offset_le
    have hle' := halignment.reaches.offset_le
    have hformat := (formatClause_reaches hformat).offset_le
    rw [hitems.opened] at hclause
    simp only [Cursor.advance_opened, Cursor.advance_offset] at *
    rw [Segment.nodes, nodes_juxtapose, Nat.add_sub_cancel]
    exact (hexpression.append hclause hle (Nat.le_refl _) hle').widen (Nat.le_refl _) hformat

theorem AlignmentRun.nested {c final : Cursor} {alignment : Option Expr}
    (h : AlignmentRun c alignment final) (hc : c.Within text) :
    Nested text c.opened c.offset (Expr.nodesOf alignment.toList) final.offset := by
  match h with
  | .absent _ => exact .nil
  | .present hcomma h =>
    have hmove := Cursor.Reaches.advance c (one_le_of_head? hcomma)
    have hitems := h.nested (hc.reaches hmove)
    simp only [Option.toList_some, Expr.nodesOf, nodes_juxtapose, List.append_nil]
    exact hitems.widen hmove.offset_le (Nat.le_refl _)

end

end

theorem SourceTree.nested {text : List Char} {tree : SourceTree}
    (h : SourceTree.ofChars text = .ok tree) :
    Nested text 0 (LineIndex.markLength text) tree.nodes text.length := by
  obtain ⟨⟨final, hrun⟩, -⟩ := SourceTree.ofChars_eq_ok_iff.mp h
  rw [← hrun.ends]
  exact hrun.nested (.atStart text)

/-- All strings that occur in a tree are located, each once and with its number, in the order in
which they open. A string does not overlap an earlier one: it stands behind it, or between the braces
of exactly one of its holes. -/
theorem SourceTree.nodes_laminar {source : String} {tree : SourceTree}
    (h : SourceTree.ofSource source = .ok tree) :
    (∀ node, node ∈ tree.nodes ↔ ∃ item ∈ tree.items, item.Occurs node) ∧
    tree.nodes.map (·.id) = List.range tree.nodes.length ∧
    (tree.nodes.Pairwise fun node next => node.range.start < next.range.start) ∧
    tree.nodes.Pairwise fun node next =>
      node.range.stop ≤ next.range.start ∨ node.Encloses source.toList next := by
  have hnested := SourceTree.nested h
  refine ⟨fun node => SourceTree.mem_nodes_iff, ?_, hnested.ordered, hnested.laminar⟩
  rw [List.range_eq_range']
  exact hnested.counted

/-- A string in a hole of a raw one, beside a call with two in each other, and one behind all. -/
theorem SourceTree.nodes_laminar_raw :
    ∃ source tree,
      source = "$$\"\"\"\x7b\x7b$\"a\"+F(@$\"\x7bb,$\"c\"\x7d\")\x7d\x7d\"\"\"+$\"d\"" ∧
      SourceTree.ofSource source = .ok tree ∧
      tree.nodes.map (·.range) = [⟨0, 32⟩, ⟨7, 11⟩, ⟨14, 26⟩, ⟨20, 24⟩, ⟨33, 37⟩] ∧
      (∀ node, node ∈ tree.nodes ↔ ∃ item ∈ tree.items, item.Occurs node) ∧
      tree.nodes.map (·.id) = List.range tree.nodes.length ∧
      (tree.nodes.Pairwise fun node next => node.range.start < next.range.start) ∧
      tree.nodes.Pairwise fun node next =>
        node.range.stop ≤ next.range.start ∨ node.Encloses source.toList next := by
  have hscan : (SourceTree.ofSource
      "$$\"\"\"\x7b\x7b$\"a\"+F(@$\"\x7bb,$\"c\"\x7d\")\x7d\x7d\"\"\"+$\"d\"").toOption.map
      (fun tree => tree.nodes.map (·.range)) =
        some [⟨0, 32⟩, ⟨7, 11⟩, ⟨14, 26⟩, ⟨20, 24⟩, ⟨33, 37⟩] := by
    decide +kernel
  obtain ⟨tree, htree, hranges⟩ := exists_ok_of_map hscan
  exact ⟨_, tree, rfl, htree, hranges, SourceTree.nodes_laminar htree⟩

end InterpolationLint
