import InterpolationLint.Proofs.Scan.Nesting
import InterpolationLint.Proofs.Sketch.Lexeme

/-!
# Places the scanner comes to

While it reads a text the scanner is called again and again, for items, for the segments of a string
and for a hole. `ScanPlace.Calls` has one constructor for each such call, with the runs that were
completed before it. A text fails as the calls made on the way fail, and what the scanner finds it
finds at one of these places.
-/

namespace InterpolationLint

/-- A call of the scanner: what it is to read, and from where. -/
inductive ScanPlace where
  | items (stops : List Char) (c : Cursor)
  | segments (kind : StringKind) (opened : Nat) (pending c : Cursor)
  | hole (braces : Nat) (c : Cursor)

namespace ScanPlace

inductive Calls : ScanPlace → ScanPlace → Prop
  | trivia {stops c length} : Lexeme.read stops c.lineStart c.ahead = .trivia length →
      Calls (.items stops c) (.items stops (c.advance length))
  | literal {stops c length} : Lexeme.read stops c.lineStart c.ahead = .literal length →
      Calls (.items stops c) (.items stops (c.advance length))
  | code {stops c length} : Lexeme.read stops c.lineStart c.ahead = .code length →
      Calls (.items stops c) (.items stops (c.advance length))
  | children {stops c delimiter bracket close} :
      Lexeme.read stops c.lineStart c.ahead = .opening delimiter bracket close →
      Calls (.items stops c) (.items [close] (c.advance 1))
  | behindGroup {stops c delimiter bracket close children inner} :
      Lexeme.read stops c.lineStart c.ahead = .opening delimiter bracket close →
      ItemsRun [close] (c.advance 1) children inner → inner.ahead.head? = some close →
      Calls (.items stops c) (.items stops (inner.advance 1))
  | segments {stops c kind marker} :
      Lexeme.read stops c.lineStart c.ahead = .string kind marker →
      Calls (.items stops c) (.segments kind c.offset (c.enter marker) (c.enter marker))
  | behindString {stops c kind marker segments inner} :
      Lexeme.read stops c.lineStart c.ahead = .string kind marker →
      SegmentsRun kind (c.enter marker) (c.enter marker) segments inner →
      Calls (.items stops c) (.items stops (inner.advance kind.quotes))
  | text {kind opened pending c length} : StringPart.read kind c.ahead = .text length →
      Calls (.segments kind opened pending c) (.segments kind opened pending (c.advance length))
  | hole {kind opened pending c} : StringPart.read kind c.ahead = .hole →
      Calls (.segments kind opened pending c) (.hole kind.braces c)
  | behindHole {kind opened pending c hole after} : StringPart.read kind c.ahead = .hole →
      HoleRun kind.braces c hole after →
      Calls (.segments kind opened pending c) (.segments kind opened after after)
  | expression {braces c} : Calls (.hole braces c) (.items expressionStops (c.advance braces))
  | alignment {braces c items c₁} : ItemsRun expressionStops (c.advance braces) items c₁ →
      c₁.ahead.head? = some ',' →
      Calls (.hole braces c) (.items alignmentStops (c₁.advance 1))

/-! ## Failures -/

def FailsAtLast {α : Type} (failure : ScanFailure) (scan : Nat → Except Halt α) : Prop :=
  ∃ enough, ∀ budget, enough ≤ budget → scan budget = .error (.failed failure)

def Fails (failure : ScanFailure) : ScanPlace → Prop
  | .items stops c => FailsAtLast failure fun budget => scanItems budget stops c
  | .segments kind opened pending c =>
    FailsAtLast failure fun budget => scanSegments budget kind opened pending c
  | .hole braces c => FailsAtLast failure fun budget => scanHole budget braces c

theorem FailsAtLast.step {α β : Type} {failure : ScanFailure} {scan : Nat → Except Halt α}
    {outer : Nat → Except Halt β} (h : FailsAtLast failure scan) (enough : Nat)
    (hstep : ∀ budget, enough ≤ budget → scan budget = .error (.failed failure) →
      outer (budget + 1) = .error (.failed failure)) : FailsAtLast failure outer := by
  obtain ⟨enough', hfails⟩ := h
  refine ⟨max enough enough' + 1, fun budget hle => ?_⟩
  obtain ⟨budget, rfl, hle⟩ := exists_budget hle
  exact hstep budget (by omega) (hfails budget (by omega))

/-- A call fails as a call that it makes. -/
theorem Calls.fails {place next : ScanPlace} {failure : ScanFailure} (h : place.Calls next)
    (hfails : next.Fails failure) : place.Fails failure := by
  cases h with
  | trivia hread =>
    refine FailsAtLast.step hfails 0 fun budget _ hscan => ?_
    simp only [scanItems, hread, hscan]
  | literal hread =>
    refine FailsAtLast.step hfails 0 fun budget _ hscan => ?_
    simp only [scanItems, hread, hscan, bind, Except.bind]
  | code hread =>
    refine FailsAtLast.step hfails 0 fun budget _ hscan => ?_
    simp only [scanItems, hread, hscan, bind, Except.bind]
  | children hread =>
    refine FailsAtLast.step hfails 0 fun budget _ hscan => ?_
    simp only [scanItems, hread, hscan, bind, Except.bind]
  | @behindGroup _ c _ _ _ _ _ hread hchildren hclose =>
    refine FailsAtLast.step hfails (2 * (c.advance 1).ahead.length + 1) ?_
    intro budget hle hscan
    simp only [scanItems, hread, hchildren.scanItems_eq hle, hclose, hscan, bind, Except.bind,
      ite_true]
  | segments hread =>
    refine FailsAtLast.step hfails 0 fun budget _ hscan => ?_
    simp only [scanItems, hread, hscan, bind, Except.bind]
  | @behindString _ c _ marker _ _ hread hsegments =>
    refine FailsAtLast.step hfails (2 * (c.enter marker).ahead.length + 1) ?_
    intro budget hle hscan
    simp only [scanItems, hread, hsegments.scanSegments_eq c.offset hle, hscan, bind, Except.bind]
  | text hread =>
    refine FailsAtLast.step hfails 0 fun budget _ hscan => ?_
    simp only [scanSegments, hread, hscan]
  | hole hread =>
    refine FailsAtLast.step hfails 0 fun budget _ hscan => ?_
    simp only [scanSegments, hread, hscan, bind, Except.bind]
  | @behindHole _ _ _ c _ _ hread hhole =>
    refine FailsAtLast.step hfails (2 * c.ahead.length) ?_
    intro budget hle hscan
    have hhole := hhole.scanHole_eq (Cursor.fits_of_part hread) hle
    simp only [scanSegments, hread, hhole, hscan, bind, Except.bind]
  | expression =>
    refine FailsAtLast.step hfails 0 fun budget _ hscan => ?_
    simp only [scanHole_succ, hscan, bind, Except.bind]
  | @alignment braces c _ _ hitems hcomma =>
    refine FailsAtLast.step hfails (2 * (c.advance braces).ahead.length + 1) ?_
    intro budget hle hscan
    simp only [scanHole_succ, hitems.scanItems_eq hle, scanAlignment, hcomma, hscan, bind,
      Except.bind, ite_true]

end ScanPlace

inductive Visited (text : List Char) : ScanPlace → Prop
  | start : Visited text (.items [] (.atStart text))
  | step {place next : ScanPlace} : Visited text place → place.Calls next → Visited text next

/-- A text fails as any call that is made while it is read. -/
theorem Visited.fails {text : List Char} {place : ScanPlace} {failure : ScanFailure}
    (h : Visited text place) (hfails : place.Fails failure) :
    SourceTree.ofChars text = .error failure := by
  induction h with
  | start =>
    obtain ⟨enough, hfails⟩ := hfails
    have hlarge : scanItems (max (scanBudget text.length) enough) [] (Cursor.atStart text) =
        .error (.failed failure) := hfails _ (Nat.le_max_right _ _)
    rw [scanItems_eq_of_le (atStart_enough text) (Nat.le_max_left _ _)] at hlarge
    simp only [SourceTree.ofChars, scanText, hlarge, bind, Except.bind]
  | step _ hcalls ih => exact ih (hcalls.fails hfails)

/-! ## What is known of a place -/

/-- The place lies in the text. Items do not end at a quote, and where there are segments the marker
of their kind opened the string. -/
def ScanPlace.Sound (text : List Char) : ScanPlace → Prop
  | .items stops c => c.Within text ∧ stops ⊆ itemEnds
  | .segments kind opened _ c =>
    c.Within text ∧ ∃ marker, opening? (text.drop opened) = some (kind, marker)
  | .hole braces c => c.Within text ∧ braces ≤ runLength '\x7b' c.ahead

theorem close_mem_itemEnds {c close : Char} {delimiter : Delimiter}
    (h : bracket? c = some (delimiter, close)) : [close] ⊆ itemEnds := by
  unfold bracket? at h
  split at h
  · cases h
    decide
  · cases h
    decide
  · cases h
    decide
  · cases h

theorem ScanPlace.Calls.sound {text : List Char} {place next : ScanPlace} (h : place.Calls next)
    (hsound : place.Sound text) : next.Sound text := by
  cases h with
  | trivia hread => exact ⟨hsound.1.reaches (Cursor.reaches_of_read hread), hsound.2⟩
  | literal hread => exact ⟨hsound.1.reaches (Cursor.reaches_of_read hread), hsound.2⟩
  | code hread => exact ⟨hsound.1.reaches (Cursor.reaches_of_read hread), hsound.2⟩
  | children hread =>
    have hinside := hsound.1.reaches (Cursor.reaches_of_read hread)
    exact ⟨hinside, close_mem_itemEnds (Cursor.fits_of_read hread).2⟩
  | behindGroup hread hchildren hclose =>
    have hinside := hsound.1.reaches (Cursor.reaches_of_read hread)
    have hbehind := hchildren.reaches.trans (.advance _ (one_le_of_head? hclose))
    exact ⟨hinside.reaches hbehind, hsound.2⟩
  | @segments _ _ _ marker hread =>
    have hopening := Cursor.fits_of_read hread
    refine ⟨hsound.1.reaches (.enter _ (marker_le hopening).2), marker, ?_⟩
    rw [hsound.1.drop_offset]
    exact hopening
  | behindString hread hsegments =>
    have hmarker := marker_le (Cursor.fits_of_read hread)
    have hquotes := Cursor.reaches_run (Cursor.fits_of_part hsegments.closes).2
    have hinside := hsound.1.reaches (.enter _ hmarker.2)
    exact ⟨hinside.reaches (hsegments.reaches.trans hquotes), hsound.2⟩
  | text hread => exact ⟨hsound.1.reaches (.advance _ (Cursor.fits_of_part hread).2), hsound.2⟩
  | hole hread => exact ⟨hsound.1, (Cursor.fits_of_part hread).2⟩
  | behindHole hread hhole =>
    exact ⟨hsound.1.reaches (hhole.reaches (Cursor.fits_of_part hread).2), hsound.2⟩
  | expression => exact ⟨hsound.1.reaches (Cursor.reaches_run hsound.2), by decide⟩
  | alignment hitems hcomma =>
    have hinside := hsound.1.reaches (Cursor.reaches_run hsound.2)
    have hbehind := hitems.reaches.trans (.advance _ (one_le_of_head? hcomma))
    exact ⟨hinside.reaches hbehind, by decide⟩

theorem Visited.sound {text : List Char} {place : ScanPlace} (h : Visited text place) :
    place.Sound text := by
  induction h with
  | start => exact ⟨.atStart text, List.nil_subset _⟩
  | step _ hcalls ih => exact hcalls.sound ih

/-! ## Leaves -/

/-- An expression is part of another: the expression itself, or in a group or a hole of it. -/
inductive Expr.PartOf (part : Expr) : Expr → Prop
  | self : PartOf part part
  | child {delimiter range children child} : child ∈ children → part.PartOf child →
      PartOf part (.group delimiter range children)
  | clause {outer : InterpolatedString} {segment clause} : segment ∈ outer.segments →
      clause ∈ segment.clauses → part.PartOf clause → PartOf part (.interpolated outer)

def Lexeme.leaf? (c : Cursor) : Lexeme → Option Expr
  | .literal length => some (.literal (c.span length))
  | .code length => some (.code (c.span length))
  | _ => none

theorem Lexeme.leaf?_cases {lexeme : Lexeme} {c : Cursor} {leaf : Expr}
    (h : lexeme.leaf? c = some leaf) : ∃ n, lexeme = .literal n ∧ leaf = .literal (c.span n) ∨
      lexeme = .code n ∧ leaf = .code (c.span n) := by
  cases lexeme with
  | literal n => exact ⟨n, .inl ⟨rfl, (Option.some.inj h).symm⟩⟩
  | code n => exact ⟨n, .inr ⟨rfl, (Option.some.inj h).symm⟩⟩
  | _ => cases h

def Expr.isLeaf : Expr → Bool
  | .literal _ | .code _ => true
  | _ => false

/-- A lexeme that was read at a place the scanner came to stands for this expression. -/
def Expr.ReadIn (text : List Char) (leaf : Expr) : Prop :=
  ∃ stops c, Visited text (.items stops c) ∧
    (Lexeme.read stops c.lineStart c.ahead).leaf? c = some leaf

section
variable {text : List Char} {leaf : Expr}

theorem Expr.partOf_juxtapose {items : List Expr} {offset : Nat} (hleaf : leaf.isLeaf = true)
    (h : leaf.PartOf (juxtapose items offset)) : ∃ item ∈ items, leaf.PartOf item := by
  unfold juxtapose at h
  split at h
  · cases h with
    | self => cases hleaf
    | child hmem => cases hmem
  · exact ⟨_, List.mem_singleton_self _, h⟩
  · cases h with
    | self => cases hleaf
    | child hmem hpart => exact ⟨_, hmem, hpart⟩

theorem Expr.PartOf.eq_of_isLeaf {part : Expr} (h : part.PartOf leaf)
    (hleaf : leaf.isLeaf = true) : part = leaf := by
  cases h with
  | self => rfl
  | child => cases hleaf
  | clause => cases hleaf

mutual

theorem ItemsRun.leaf_readIn {stops : List Char} {c final : Cursor} {items : List Expr}
    (h : ItemsRun stops c items final) (hleaf : leaf.isLeaf = true)
    (hc : Visited text (.items stops c)) :
    ∀ item ∈ items, leaf.PartOf item → leaf.ReadIn text := by
  match h with
  | .stop _ => simp
  | .trivia hread h => exact h.leaf_readIn hleaf (hc.step (.trivia hread))
  | .literal hread h =>
    refine List.forall_mem_cons.mpr ⟨?_, h.leaf_readIn hleaf (hc.step (.literal hread))⟩
    intro hpart
    obtain rfl := hpart.eq_of_isLeaf rfl
    exact ⟨_, _, hc, by rw [hread, Lexeme.leaf?]⟩
  | .code hread h =>
    refine List.forall_mem_cons.mpr ⟨?_, h.leaf_readIn hleaf (hc.step (.code hread))⟩
    intro hpart
    obtain rfl := hpart.eq_of_isLeaf rfl
    exact ⟨_, _, hc, by rw [hread, Lexeme.leaf?]⟩
  | .group hread hchildren hclose h =>
    have hbehind := hc.step (.behindGroup hread hchildren hclose)
    refine List.forall_mem_cons.mpr ⟨fun hpart => ?_, h.leaf_readIn hleaf hbehind⟩
    cases hpart with
    | self => cases hleaf
    | child hmem hpart => exact hchildren.leaf_readIn hleaf (hc.step (.children hread)) _ hmem hpart
  | .string hread hsegments h =>
    have hbehind := hc.step (.behindString hread hsegments)
    refine List.forall_mem_cons.mpr ⟨fun hpart => ?_, h.leaf_readIn hleaf hbehind⟩
    cases hpart with
    | self => cases hleaf
    | clause hsegment hclause hpart =>
      exact hsegments.leaf_readIn hleaf (hc.step (.segments hread)) _ hsegment _ hclause hpart

theorem SegmentsRun.leaf_readIn {kind : StringKind} {opened : Nat} {pending c final : Cursor}
    {segments : List Segment} (h : SegmentsRun kind pending c segments final)
    (hleaf : leaf.isLeaf = true) (hc : Visited text (.segments kind opened pending c)) :
    ∀ segment ∈ segments, ∀ clause ∈ segment.clauses, leaf.PartOf clause → leaf.ReadIn text := by
  have htext : ∀ segment ∈ textBetween pending c, ∀ clause ∈ segment.clauses,
      leaf.PartOf clause → leaf.ReadIn text := by
    intro segment hsegment clause hclause
    unfold textBetween at hsegment
    split at hsegment
    · cases List.mem_singleton.mp hsegment
      cases hclause
    · cases hsegment
  match h with
  | .close _ => exact htext
  | .text hread h => exact h.leaf_readIn hleaf (hc.step (.text hread))
  | .hole hread hhole h =>
    have hbehind := h.leaf_readIn hleaf (hc.step (.behindHole hread hhole))
    have hinside := hhole.leaf_readIn hleaf (hc.step (.hole hread))
    exact List.forall_mem_append.mpr ⟨htext, List.forall_mem_cons.mpr ⟨hinside, hbehind⟩⟩

theorem HoleRun.leaf_readIn {braces : Nat} {c final : Cursor} {hole : Segment}
    (h : HoleRun braces c hole final) (hleaf : leaf.isLeaf = true)
    (hc : Visited text (.hole braces c)) :
    ∀ clause ∈ hole.clauses, leaf.PartOf clause → leaf.ReadIn text := by
  match h with
  | .closed hitems halignment _ _ =>
    refine List.forall_mem_cons.mpr ⟨fun hpart => ?_, ?_⟩
    · obtain ⟨item, hmem, hpart⟩ := Expr.partOf_juxtapose hleaf hpart
      exact hitems.leaf_readIn hleaf (hc.step .expression) item hmem hpart
    · exact halignment.leaf_readIn hleaf fun hcomma => hc.step (.alignment hitems hcomma)

theorem AlignmentRun.leaf_readIn {c final : Cursor} {alignment : Option Expr}
    (h : AlignmentRun c alignment final) (hleaf : leaf.isLeaf = true)
    (hc : c.ahead.head? = some ',' → Visited text (.items alignmentStops (c.advance 1))) :
    ∀ clause ∈ alignment.toList, leaf.PartOf clause → leaf.ReadIn text := by
  match h with
  | .absent _ => simp
  | .present hcomma h =>
    intro clause hclause hpart
    cases List.mem_singleton.mp hclause
    obtain ⟨item, hmem, hpart⟩ := Expr.partOf_juxtapose hleaf hpart
    exact h.leaf_readIn hleaf (hc hcomma) item hmem hpart

end

/-- The leaves of a scanned tree are what the scanner read at the places it came to. -/
theorem SourceTree.leaf_readIn {tree : SourceTree} (h : SourceTree.ofChars text = .ok tree)
    {item : Expr} (hitem : item ∈ tree.items) (hleaf : leaf.isLeaf = true)
    (hpart : leaf.PartOf item) : ∃ stops c n, Visited text (.items stops c) ∧
      (Lexeme.read stops c.lineStart c.ahead = .literal n ∧ leaf = .literal (c.span n) ∨
        Lexeme.read stops c.lineStart c.ahead = .code n ∧ leaf = .code (c.span n)) := by
  obtain ⟨items, hitems, h⟩ := bind_eq_ok h
  cases h
  obtain ⟨final, hrun⟩ := scanText_eq_ok_iff.mp hitems
  obtain ⟨stops, c, hc, hread⟩ := hrun.leaf_readIn hleaf .start item hitem hpart
  obtain ⟨n, hn⟩ := Lexeme.leaf?_cases hread
  exact ⟨stops, c, n, hc, hn⟩

end

end InterpolationLint
