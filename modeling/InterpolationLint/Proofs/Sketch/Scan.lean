import InterpolationLint.Proofs.Analysis
import InterpolationLint.Proofs.Sketch.Lexeme

/-!
# Scanning a written sketch

The scanner undoes the writing of a sketch: what it finds is the tree of the sketch, up to places.
The claim about an item is made for any text behind it, with what the scanner will find there, so
that the pieces can be put together from the back.
-/

namespace InterpolationLint

/-- Read from any place with `input` ahead, items are of the given shapes and end before `rest`. -/
def Yields (stops input : List Char) (shapes : List Expr) (rest : List Char) : Prop :=
  ∀ c : Cursor, c.ahead = input → ∃ items final,
    ItemsRun stops c items final ∧ final.ahead = rest ∧ Expr.unplacedAll items = shapes

def YieldsSegments (kind : StringKind) (pre input : List Char) (shapes : List Segment)
    (rest : List Char) : Prop :=
  ∀ pending c : Cursor, pending.Reads pre c → c.ahead = input → ∃ segments final,
    SegmentsRun kind pending c segments final ∧ final.ahead = rest ∧
      Segment.unplacedAll segments = shapes

def textShape (pre : List Char) : List Segment :=
  if pre = [] then [] else [.text (String.ofList pre) .nowhere]

theorem textBetween_unplaced {pending c : Cursor} {pre : List Char} (h : pending.Reads pre c) :
    Segment.unplacedAll (textBetween pending c) = textShape pre := by
  have hoffset := h.offset
  unfold textBetween textShape
  cases pre with
  | nil =>
    rw [if_pos rfl, if_neg (by rw [hoffset]; exact Nat.lt_irrefl _), Segment.unplacedAll]
  | cons a pre =>
    rw [if_neg (List.cons_ne_nil a pre), if_pos (by rw [hoffset, List.length_cons]; omega),
      h.textUpTo]
    rfl

theorem Segment.unplacedAll_append : ∀ (xs ys : List Segment),
    Segment.unplacedAll (xs ++ ys) = Segment.unplacedAll xs ++ Segment.unplacedAll ys
  | [], _ => rfl
  | .text _ _ :: xs, ys => by
    simp only [List.cons_append, Segment.unplacedAll, Segment.unplacedAll_append xs ys]
  | .hole _ _ none _ :: xs, ys => by
    simp only [List.cons_append, Segment.unplacedAll, Segment.unplacedAll_append xs ys]
  | .hole _ _ (some _) _ :: xs, ys => by
    simp only [List.cons_append, Segment.unplacedAll, Segment.unplacedAll_append xs ys]

theorem juxtapose_unplaced (items : List Expr) (offset : Nat) :
    (juxtapose items offset).unplaced = sideBySide (Expr.unplacedAll items) := by
  match items with
  | [] => rfl
  | [item] => rfl
  | first :: second :: rest => rfl

/-! ## Items -/

section
variable {stops : List Char} {shapes : List Expr} {final rest : List Char}

theorem Yields.stop {c : Char} (hc : c ∈ stops) (hcolon : c ≠ ':') :
    Yields stops (c :: rest) [] (c :: rest) := by
  intro p hp
  refine ⟨[], p, .stop ?_, hp, rfl⟩
  rw [hp, Lexeme.read_stop p.lineStart hc hcolon]

theorem Yields.atEnd : Yields stops [] [] [] := by
  intro p hp
  refine ⟨[], p, .stop ?_, hp, rfl⟩
  rw [hp]
  rfl

theorem not_blank_of_subset (hstops : stops ⊆ itemEnds) : ∀ s ∈ stops, isBlank s = false :=
  fun s hs => not_blank_of_all (by decide : itemEnds.all (!isBlank ·) = true) s (hstops hs)

theorem Yields.space (hstops : stops ⊆ itemEnds) (h : Yields stops rest shapes final) :
    Yields stops (' ' :: rest) shapes final := by
  intro p hp
  obtain ⟨items, p', hrun, hfinal, hshapes⟩ := h (p.advance 1) (by rw [Cursor.advance_ahead, hp]; rfl)
  refine ⟨items, p', ?_, hfinal, hshapes⟩
  rw [← Cursor.scan_eq_ok_iff] at hrun ⊢
  rw [Cursor.scan_of_blank (not_blank_of_subset hstops) (by decide) hp, hrun]

theorem Yields.spaces (hstops : stops ⊆ itemEnds) (h : Yields stops rest shapes final) :
    ∀ n, Yields stops (List.replicate n ' ' ++ rest) shapes final
  | 0 => h
  | n + 1 => by
    rw [List.replicate_succ, List.cons_append]
    exact (h.spaces hstops n).space hstops

theorem Yields.word (hstops : stops ⊆ itemEnds) {letters : List Char} (hne : letters ≠ [])
    (hletters : ∀ c ∈ letters, c.isAlpha = true) (hrest : Ends rest)
    (h : Yields stops rest shapes final) :
    Yields stops (letters ++ rest) (.code .nowhere :: shapes) final := by
  intro p hp
  have hread := Lexeme.read_word hstops p.lineStart hne hletters hrest
  obtain ⟨items, p', hrun, hfinal, hshapes⟩ := h (p.advance letters.length)
    (by rw [Cursor.advance_ahead, hp, List.drop_left])
  exact ⟨_, p', .code (hp ▸ hread) hrun, hfinal, by rw [← hshapes]; rfl⟩

theorem Yields.plain (hstops : stops ⊆ itemEnds) {text : List Char}
    (htext : ∀ c ∈ text, c ≠ '"' ∧ c ≠ '\\' ∧ c ≠ '\n') (hrest : Ends rest)
    (h : Yields stops rest shapes final) :
    Yields stops ('"' :: (text ++ '"' :: rest)) (.literal .nowhere :: shapes) final := by
  intro p hp
  have hread := Lexeme.read_plain hstops p.lineStart htext hrest
  obtain ⟨items, p', hrun, hfinal, hshapes⟩ := h (p.advance (text.length + 2))
    (by simp [Cursor.advance_ahead, hp, List.drop_append])
  exact ⟨_, p', .literal (hp ▸ hread) hrun, hfinal, by rw [← hshapes]; rfl⟩

theorem Yields.group (hstops : stops ⊆ itemEnds) (bracket : Bracket) {inside : List Char}
    {children : List Expr}
    (hchildren : Yields [bracket.closing] inside children (bracket.closing :: rest))
    (h : Yields stops rest shapes final) :
    Yields stops (bracket.opening :: inside)
      (.group bracket.delimiter .nowhere children :: shapes) final := by
  intro p hp
  have hread := Lexeme.read_bracket hstops p.lineStart bracket inside
  obtain ⟨found, inner, hinner, hclose, hfound⟩ := hchildren (p.advance 1)
    (by rw [Cursor.advance_ahead, hp]; rfl)
  obtain ⟨items, p', hrun, hfinal, hshapes⟩ := h (inner.advance 1)
    (by rw [Cursor.advance_ahead, hclose]; rfl)
  refine ⟨_, p', .group (hp ▸ hread) hinner (by rw [hclose]; rfl) hrun, hfinal, ?_⟩
  rw [← hshapes, ← hfound]
  rfl

theorem Yields.interpolated (hstops : stops ⊆ itemEnds) {flavor : Flavor} {body : List Char}
    {segments : List Segment} (hbody : flavor.Follows body)
    (hsegments : YieldsSegments flavor.kind [] body segments (flavor.closing ++ rest))
    (h : Yields stops rest shapes final) :
    Yields stops (flavor.opening ++ body)
      (.interpolated ⟨0, flavor.kind, .nowhere, .nowhere, segments⟩ :: shapes) final := by
  intro p hp
  have hread := Lexeme.read_flavor hstops p.lineStart hbody
  obtain ⟨found, inner, hinner, hclose, hfound⟩ := hsegments _ (p.enter flavor.opening.length)
    (.refl _) (by rw [Cursor.enter_ahead, hp, List.drop_left])
  obtain ⟨items, p', hrun, hfinal, hshapes⟩ := h (inner.advance flavor.kind.quotes)
    (by rw [Cursor.advance_ahead, hclose]; exact List.drop_left' List.length_replicate)
  refine ⟨_, p', .string (hp ▸ hread) hinner hrun, hfinal, ?_⟩
  rw [← hshapes, ← hfound]
  rfl

end

/-! ## Segments -/

theorem Flavor.braces_pos (flavor : Flavor) : 1 ≤ flavor.kind.braces := by
  cases flavor with
  | raw d q hd hq => exact hd
  | _ => exact Nat.le_refl 1

section
variable {flavor : Flavor} {pre rest final : List Char} {shapes : List Segment}

theorem YieldsSegments.close (hrest : Ends rest) :
    YieldsSegments flavor.kind pre (flavor.closing ++ rest) (textShape pre)
      (flavor.closing ++ rest) := by
  intro pending p hpre hp
  refine ⟨_, p, .close ?_, hp, textBetween_unplaced hpre⟩
  rw [hp, StringPart.read_closing flavor hrest]

theorem YieldsSegments.step (cs : List Char)
    (hread : StringPart.read flavor.kind (cs ++ rest) = .text cs.length)
    (h : YieldsSegments flavor.kind (pre ++ cs) rest shapes final) :
    YieldsSegments flavor.kind pre (cs ++ rest) shapes final := by
  intro pending p hpre hp
  have hmove : p.Reads cs (p.advance cs.length) := by
    have hle : cs.length ≤ p.ahead.length := by simp [hp]
    simpa [hp] using Cursor.Reads.advance p hle
  obtain ⟨segments, p', hrun, hfinal, hshapes⟩ := h pending (p.advance cs.length)
    (hpre.trans hmove) (by rw [Cursor.advance_ahead, hp, List.drop_left])
  exact ⟨segments, p', .text (hp ▸ hread) hrun, hfinal, hshapes⟩

theorem YieldsSegments.text {text : List Char} (htext : ∀ c ∈ text, flavor.allows c = true)
    (h : YieldsSegments flavor.kind (pre ++ flavor.written text) rest shapes final) :
    YieldsSegments flavor.kind pre (flavor.written text ++ rest) shapes final := by
  induction text generalizing pre with
  | nil =>
    rw [Flavor.written, List.append_nil] at h
    exact h
  | cons c text ih =>
    have hallows := htext c List.mem_cons_self
    rw [Flavor.written] at h ⊢
    cases hdoubles : flavor.doubles c with
    | true =>
      rw [hdoubles, if_pos rfl] at h
      refine YieldsSegments.step [c, c] (StringPart.read_doubled hdoubles _) ?_
      refine ih (fun d hd => htext d (List.mem_cons_of_mem c hd)) ?_
      rwa [List.append_assoc]
    | false =>
      rw [hdoubles, if_neg nofun] at h
      refine YieldsSegments.step [c] (StringPart.read_single hallows hdoubles _) ?_
      refine ih (fun d hd => htext d (List.mem_cons_of_mem c hd)) ?_
      rwa [List.append_assoc]

theorem YieldsSegments.hole {inside : List Char} {children : List Expr}
    (hchildren : Yields expressionStops (' ' :: inside) children
      (List.replicate flavor.kind.braces '\x7d' ++ rest))
    (h : YieldsSegments flavor.kind [] rest shapes final) :
    YieldsSegments flavor.kind pre
      (List.replicate flavor.kind.braces '\x7b' ++ ' ' :: inside)
      (textShape pre ++ .hole .nowhere (sideBySide children) none none :: shapes) final := by
  intro pending p hpre hp
  have hread := StringPart.read_braces flavor inside
  obtain ⟨found, inner, hinner, hclose, hfound⟩ := hchildren (p.advance flavor.kind.braces)
    (by rw [Cursor.advance_ahead, hp]; exact List.drop_left' List.length_replicate)
  have hhead : inner.ahead.head? = some '\x7d' := by
    rw [hclose, head?_replicate_append flavor.braces_pos]
  have hcomma : inner.ahead.head? ≠ some ',' := by rw [hhead]; decide
  have hformat : formatClause inner = (none, inner) := by
    rw [formatClause, if_neg (by rw [hhead]; decide)]
  have hbraces : flavor.kind.braces ≤ runLength '\x7d' inner.ahead := by
    rw [hclose]
    exact le_runLength_replicate_append _ _ _
  obtain ⟨segments, p', hrun, hfinal, hshapes⟩ := h _ (inner.advance flavor.kind.braces) (.refl _)
    (by rw [Cursor.advance_ahead, hclose]; exact List.drop_left' List.length_replicate)
  refine ⟨_, p', .hole (hp ▸ hread) (.closed hinner (.absent hcomma) hformat hbraces) hrun,
    hfinal, ?_⟩
  rw [Segment.unplacedAll_append, textBetween_unplaced hpre, Segment.unplacedAll,
    juxtapose_unplaced, hfound, hshapes]
  rfl

end

/-! ## Sketches -/

def Sketch.Scans (pad : Nat) (item : Sketch) : Prop :=
  ∀ {stops rest final : List Char} {shapes : List Expr}, stops ⊆ itemEnds → Ends rest →
    Yields stops rest shapes final → Yields stops (item.render pad ++ rest) (item.tree :: shapes) final

def SketchPart.Scans (pad : Nat) (flavor : Flavor) : SketchPart → Prop
  | .text chars => chars ≠ [] ∧ ∀ c ∈ chars, flavor.allows c = true
  | .hole items => ∀ item ∈ items, item.Scans pad

theorem Sketch.scans_all {pad : Nat} {stops rest final : List Char} {shapes : List Expr}
    (hstops : stops ⊆ itemEnds) (hrest : Ends rest) (h : Yields stops rest shapes final) :
    ∀ {items : List Sketch}, (∀ item ∈ items, item.Scans pad) →
      Yields stops (Sketch.renderAll pad items ++ rest) (Sketch.trees items ++ shapes) final
  | [], _ => h
  | [item], hitems => hitems item List.mem_cons_self hstops hrest h
  | item :: next :: others, hitems => by
    have ih := Sketch.scans_all hstops hrest h fun other hother =>
      hitems other (List.mem_cons_of_mem item hother)
    rw [Sketch.renderAll, List.append_assoc, List.cons_append, Sketch.trees]
    exact hitems item List.mem_cons_self hstops (.space _) (ih.space hstops)

theorem Flavor.written_ne_nil (flavor : Flavor) {text : List Char} (h : text ≠ []) :
    flavor.written text ≠ [] := by
  cases text with
  | nil => exact absurd rfl h
  | cons c text =>
    rw [Flavor.written]
    split <;> exact List.cons_ne_nil _ _

theorem Sketch.scans_hole {pad : Nat} {flavor : Flavor} {items : List Sketch}
    (hitems : ∀ item ∈ items, item.Scans pad) (rest : List Char) :
    Yields expressionStops (' ' :: (Sketch.renderAll pad items ++
        (' ' :: (List.replicate flavor.kind.braces '\x7d' ++ rest)))) (Sketch.trees items)
      (List.replicate flavor.kind.braces '\x7d' ++ rest) := by
  have hstops : expressionStops ⊆ itemEnds := by decide
  have hstop : Yields expressionStops (List.replicate flavor.kind.braces '\x7d' ++ rest) []
      (List.replicate flavor.kind.braces '\x7d' ++ rest) := by
    obtain ⟨n, hn⟩ := Nat.exists_eq_add_of_le' flavor.braces_pos
    rw [hn, List.replicate_succ, List.cons_append]
    exact .stop (by decide) (by decide)
  have hall := Sketch.scans_all hstops (.space _) (hstop.space hstops) hitems
  rw [List.append_nil] at hall
  exact hall.space hstops

theorem SketchPart.scans_all {pad : Nat} {flavor : Flavor} {rest : List Char} (hrest : Ends rest) :
    ∀ {parts : List SketchPart} (pre : List Char),
      parts.IsChain (fun part next => part.isText = true → next.isText = false) →
      (∀ part ∈ parts, part.Scans pad flavor) →
      (pre = [] ∨ ∀ part, parts.head? = some part → part.isText = false) →
      YieldsSegments flavor.kind pre
        (SketchPart.renderAll pad flavor parts ++ (flavor.closing ++ rest))
        (textShape pre ++ SketchPart.segments flavor parts) (flavor.closing ++ rest)
  | [], pre, _, _, _ => by
    rw [SketchPart.segments, List.append_nil]
    exact .close hrest
  | .text chars :: parts, pre, hchain, hparts, hpre => by
    -- no text is pending before a text, and this one is pending until the next hole or the end
    obtain rfl : pre = [] := hpre.resolve_right fun h => nomatch h _ rfl
    obtain ⟨hne, hchars⟩ : chars ≠ [] ∧ _ := hparts _ List.mem_cons_self
    have hnext : ∀ part, parts.head? = some part → part.isText = false := by
      intro part hpart
      obtain ⟨others, rfl⟩ := List.head?_eq_some_iff.mp hpart
      exact (List.isChain_cons_cons.mp hchain).1 rfl
    have ih := SketchPart.scans_all hrest (flavor.written chars) hchain.tail
      (fun part hpart => hparts part (List.mem_cons_of_mem _ hpart)) (.inr hnext)
    rw [textShape, if_neg (flavor.written_ne_nil hne)] at ih
    rw [SketchPart.renderAll, List.append_assoc]
    exact YieldsSegments.text hchars ih
  | .hole items :: parts, pre, hchain, hparts, _ => by
    have ih := SketchPart.scans_all hrest [] hchain.tail
      (fun part hpart => hparts part (List.mem_cons_of_mem _ hpart)) (.inl rfl)
    have hitems : ∀ item ∈ items, item.Scans pad := hparts _ List.mem_cons_self
    simp only [SketchPart.renderAll, List.append_assoc, List.cons_append]
    exact YieldsSegments.hole (Sketch.scans_hole hitems _) ih

theorem SketchPart.head?_renderAll {pad : Nat} {flavor : Flavor} {parts : List SketchPart}
    (hne : parts ≠ []) (hparts : ∀ part ∈ parts, part.Scans pad flavor) (rest : List Char)
    (hflavor : ∀ dollarFirst, flavor ≠ .verbatim dollarFirst) :
    (SketchPart.renderAll pad flavor parts ++ rest).head? ≠ some '"' := by
  match parts with
  | [] => exact absurd rfl hne
  | .hole items :: parts =>
    rw [SketchPart.renderAll, List.append_assoc, head?_replicate_append flavor.braces_pos]
    decide
  | .text [] :: parts => exact absurd rfl (hparts _ List.mem_cons_self).1
  | .text (c :: chars) :: parts =>
    have hallows : flavor.allows c = true := (hparts _ List.mem_cons_self).2 c List.mem_cons_self
    have hc : c ≠ '"' := by
      rintro rfl
      cases flavor with
      | verbatim dollarFirst => exact hflavor dollarFirst rfl
      | _ => cases hallows
    rw [SketchPart.renderAll, Flavor.written]
    split <;> simpa using hc

theorem Flavor.follows_renderAll {pad : Nat} {flavor : Flavor} {parts : List SketchPart}
    (hraw : ∀ d q hd hq, flavor = .raw d q hd hq → parts ≠ [])
    (hparts : ∀ part ∈ parts, part.Scans pad flavor) {rest : List Char} (hrest : Ends rest) :
    flavor.Follows (SketchPart.renderAll pad flavor parts ++ (flavor.closing ++ rest)) := by
  cases flavor with
  | regular =>
    by_cases hne : parts = []
    · subst hne
      show runLength '"' ('"' :: rest) ≤ 1
      rw [runLength_cons_self, runLength_eq_zero (hrest.head?_ne (by decide) (by decide))]
    · have hhead := SketchPart.head?_renderAll hne hparts (Flavor.regular.closing ++ rest) nofun
      show runLength '"' _ ≤ 1
      rw [runLength_eq_zero hhead]
      exact Nat.zero_le 1
  | verbatim dollarFirst => trivial
  | raw d q hd hq => exact SketchPart.head?_renderAll (hraw d q hd hq rfl) hparts _ nofun

/-! ## The scanner undoes the writing -/

mutual

theorem Sketch.WellFormed.scans (pad : Nat) {item : Sketch} (h : item.WellFormed) :
    item.Scans pad := by
  intro stops rest final shapes hstops hrest hyields
  match h with
  | .word hne hletters => exact .word hstops hne hletters hrest hyields
  | .plain htext =>
    simp only [Sketch.render, List.cons_append, List.append_assoc, List.nil_append]
    exact .plain hstops htext hrest hyields
  | @Sketch.WellFormed.group bracket items hitems =>
    have hinside : [bracket.closing] ⊆ itemEnds := by cases bracket <;> decide
    -- behind the last item stands the padding, or the closing bracket if there is none
    have hends : Ends (List.replicate pad ' ' ++ bracket.closing :: rest) := by
      cases pad with
      | zero => exact .closing bracket rest
      | succ pad => exact .space _
    have hclose : Yields [bracket.closing] (bracket.closing :: rest) [] (bracket.closing :: rest) :=
      .stop List.mem_cons_self (by cases bracket <;> decide)
    have hchildren := Sketch.scans_all hinside hends (hclose.spaces hinside pad)
      fun item hitem => (hitems item hitem).scans pad
    rw [List.append_nil] at hchildren
    simp only [Sketch.render, List.cons_append, List.append_assoc, List.nil_append]
    exact .group hstops bracket (hchildren.spaces hinside pad) hyields
  | @Sketch.WellFormed.interpolated flavor parts hraw hchain hparts =>
    have hscans : ∀ part ∈ parts, part.Scans pad flavor :=
      fun part hpart => (hparts part hpart).scans pad
    have hsegments := SketchPart.scans_all hrest [] hchain hscans (.inl rfl)
    simp only [Sketch.render, List.append_assoc]
    exact .interpolated hstops (Flavor.follows_renderAll hraw hscans hrest) hsegments hyields

theorem SketchPart.WellFormed.scans (pad : Nat) {flavor : Flavor} {part : SketchPart}
    (h : part.WellFormed flavor) : part.Scans pad flavor := by
  match h with
  | .text hne hallows => exact ⟨hne, hallows⟩
  | .hole _ hitems => exact fun item hitem => (hitems item hitem).scans pad

end

theorem Sketch.WellFormed.render_eq_cons (pad : Nat) {item : Sketch} (h : item.WellFormed) :
    ∃ c rest, item.render pad = c :: rest ∧ c ≠ byteOrderMark := by
  match h with
  | @Sketch.WellFormed.word [] hne _ => exact absurd rfl hne
  | @Sketch.WellFormed.word (c :: letters) _ hletters =>
    exact ⟨c, letters, rfl, ne_of_isAlpha (hletters c List.mem_cons_self) (by decide)⟩
  | .plain _ => exact ⟨'"', _, rfl, by decide⟩
  | @Sketch.WellFormed.group bracket _ _ => exact ⟨_, _, rfl, by cases bracket <;> decide⟩
  | @Sketch.WellFormed.interpolated flavor _ _ _ _ =>
    obtain ⟨c, rest, hc, hopening⟩ := flavor.opening_eq_cons
    refine ⟨c, _, by rw [Sketch.render, hopening, List.cons_append], ?_⟩
    rintro rfl
    exact absurd hc (by decide)

theorem Cursor.atStart_renderAll (pad : Nat) {items : List Sketch}
    (h : ∀ item ∈ items, item.WellFormed) :
    (Cursor.atStart (Sketch.renderAll pad items)).ahead = Sketch.renderAll pad items := by
  have hmark : LineIndex.markLength (Sketch.renderAll pad items) = 0 := by
    match items with
    | [] => rfl
    | [item] =>
      obtain ⟨c, rest, hrender, hc⟩ := (h item List.mem_cons_self).render_eq_cons pad
      simp [Sketch.renderAll, hrender, LineIndex.markLength, hc]
    | item :: _ :: _ =>
      obtain ⟨c, rest, hrender, hc⟩ := (h item List.mem_cons_self).render_eq_cons pad
      simp [Sketch.renderAll, hrender, LineIndex.markLength, hc]
  rw [Cursor.atStart, hmark, List.drop_zero]

/-- The tree of a written sketch is the tree of the sketch, up to places. -/
theorem SourceTree.ofSource_renderAll (pad : Nat) {items : List Sketch}
    (h : ∀ item ∈ items, item.WellFormed) :
    ∃ tree, SourceTree.ofSource (String.ofList (Sketch.renderAll pad items)) = .ok tree ∧
      Expr.unplacedAll tree.items = Sketch.trees items := by
  have hyields := Sketch.scans_all (List.nil_subset itemEnds) .nil .atEnd
    fun item hitem => (h item hitem).scans pad
  rw [List.append_nil, List.append_nil] at hyields
  obtain ⟨found, final, hrun, -, hfound⟩ := hyields _ (Cursor.atStart_renderAll pad h)
  refine ⟨⟨found, LineIndex.ofChars (Sketch.renderAll pad items)⟩, ?_, hfound⟩
  rw [SourceTree.ofSource, String.toList_ofList]
  exact SourceTree.ofChars_eq_ok_iff.mpr ⟨⟨final, hrun⟩, rfl⟩

/-- A raw string with a closing brace as text, in a hole of a regular one that begins with a written
brace, in a group beside a verbatim one with a written quote. -/
theorem SourceTree.ofSource_nested_sketch :
    ∃ items : List Sketch, String.ofList (Sketch.renderAll 0 items) =
        "f ($\"\x7b\x7b\x7b $$\"\"\"\x7d\x7b\x7b x \"y\" \x7d\x7d\"\"\" \x7d\" @$\"\"\"\")" ∧
      ∃ tree, SourceTree.ofSource (String.ofList (Sketch.renderAll 0 items)) = .ok tree ∧
        Expr.unplacedAll tree.items = Sketch.trees items := by
  refine ⟨[.word ['f'], .group .round [
    .interpolated .regular [.text ['\x7b'], .hole [
      .interpolated (.raw 2 3 (by decide) (by decide)) [.text ['\x7d'],
        .hole [.word ['x'], .plain ['y']]]]],
    .interpolated (.verbatim false) [.text ['"']]]], ?_, ?_⟩
  · decide
  · refine SourceTree.ofSource_renderAll 0 ?_
    rw [List.forall_mem_cons, List.forall_mem_singleton]
    refine ⟨.word (by decide) (List.all_eq_true.mp (by decide)), .group ?_⟩
    rw [List.forall_mem_cons, List.forall_mem_singleton]
    refine ⟨.interpolated (by simp) (by simp [SketchPart.isText]) ?_,
      .interpolated (by simp) (by simp) ?_⟩
    · rw [List.forall_mem_cons, List.forall_mem_singleton]
      refine ⟨.text (by decide) (List.all_eq_true.mp (by decide)), .hole (List.cons_ne_nil _ _) ?_⟩
      rw [List.forall_mem_singleton]
      refine .interpolated (by simp) (by simp [SketchPart.isText]) ?_
      rw [List.forall_mem_cons, List.forall_mem_singleton]
      refine ⟨.text (by decide) (List.all_eq_true.mp (by decide)), .hole (List.cons_ne_nil _ _) ?_⟩
      rw [List.forall_mem_cons, List.forall_mem_singleton]
      exact ⟨.word (by decide) (List.all_eq_true.mp (by decide)), .plain (by simp)⟩
    · rw [List.forall_mem_singleton]
      exact .text (by decide) (List.all_eq_true.mp (by decide))

end InterpolationLint
