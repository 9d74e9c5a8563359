import InterpolationLint.Proofs.Analysis
import InterpolationLint.Proofs.Scan.Trivia

/-!
# Every character is accounted for

The items of a scanned text stand one behind the other with nothing but trivia around them, and so do
the children of a group between its brackets and the clauses of a hole between its braces, at every
depth.
-/

namespace InterpolationLint

/-- Only trivia stands before, between and behind items from `a` to `b`. -/
def Gaps (text : List Char) : Nat → List Expr → Nat → Prop
  | a, [], b => Trivia text a b
  | a, item :: rest, b => Trivia text a item.range.start ∧ Gaps text item.range.stop rest b

/-- Items between two offsets: not empty, in order, apart from each other, and with only trivia around
them. -/
structure Laid (text : List Char) (a : Nat) (items : List Expr) (b : Nat) : Prop where
  inside : ∀ item ∈ items,
    a ≤ item.range.start ∧ item.range.start < item.range.stop ∧ item.range.stop ≤ b
  ordered : items.Pairwise fun item next => item.range.stop ≤ next.range.start
  gaps : Gaps text a items b

def Expr.juxtaposed : Expr → List Expr
  | .group .juxtaposition _ children => children
  | expr => [expr]

/-- A comma with the items of the alignment, from `p` to `q`, or nothing. -/
def AlignmentLaid (text : List Char) (p : Nat) : Option Expr → Nat → Prop
  | none, q => q = p
  | some alignment, q => text[p]? = some ',' ∧ Laid text (p + 1) alignment.juxtaposed q

/-- A colon with the format, from `q` to `r`, or nothing. -/
def FormatLaid (text : List Char) (q : Nat) : Option TextRange → Nat → Prop
  | none, r => r = q
  | some format, r => text[q]? = some ':' ∧ format = ⟨q + 1, r⟩ ∧ q + 1 ≤ r

/-- A hole from its first opening to its last closing brace. Its expression ends at `p`, its alignment
at `q` and its format at `r`. -/
structure HoleLaid (text : List Char) (braces : Nat) (range : TextRange) (expression : Expr)
    (alignment : Option Expr) (format : Option TextRange) (p q r : Nat) : Prop where
  inOrder : range.start + braces ≤ p ∧ p ≤ q ∧ q ≤ r ∧ r + braces = range.stop
  opened : ∀ i, i < braces → text[range.start + i]? = some '\x7b'
  expression : Laid text (range.start + braces) expression.juxtaposed p
  alignment : AlignmentLaid text p alignment q
  format : FormatLaid text q format r
  closed : ∀ i, i < braces → text[r + i]? = some '\x7d'

mutual

inductive Expr.Accounted (text : List Char) : Expr → Prop
  | literal {range} : Expr.Accounted text (.literal range)
  | code {range} : Expr.Accounted text (.code range)
  | group {start stop : Nat} {delimiter opening close} {children : List Expr} :
      bracket? opening = some (delimiter, close) → text[start]? = some opening →
      text[stop]? = some close → Laid text (start + 1) children stop →
      (∀ child ∈ children, child.Accounted text) →
      Expr.Accounted text (.group delimiter ⟨start, stop + 1⟩ children)
  | interpolated {node : InterpolatedString} :
      (∀ segment ∈ node.segments, segment.Accounted text node.kind.braces) →
      Expr.Accounted text (.interpolated node)

inductive Segment.Accounted (text : List Char) : Nat → Segment → Prop
  | text {braces written range} : Segment.Accounted text braces (.text written range)
  | hole {braces range expression alignment format p q r} :
      HoleLaid text braces range expression alignment format p q r →
      (∀ item ∈ expression.juxtaposed, item.Accounted text) →
      (∀ clause ∈ alignment, ∀ item ∈ clause.juxtaposed, item.Accounted text) →
      Segment.Accounted text braces (.hole range expression alignment format)

end

/-! ## Items in order -/

namespace Laid

variable {text : List Char} {a a' b : Nat} {items : List Expr}

theorem nil (h : Trivia text a b) : Laid text a [] b := ⟨by simp, .nil, h⟩

theorem le (h : Laid text a items b) : a ≤ b := by
  cases items with
  | nil => exact Trivia.le h.gaps
  | cons item rest =>
    have := h.inside item List.mem_cons_self
    omega

theorem cons {item : Expr} (hrange : item.range = ⟨a, a'⟩) (hlt : a < a')
    (h : Laid text a' items b) : Laid text a (item :: items) b where
  inside := by
    have hle := h.le
    intro other hmem
    rcases List.mem_cons.mp hmem with rfl | hmem
    · rw [hrange]
      exact ⟨Nat.le_refl _, hlt, hle⟩
    · have := h.inside other hmem
      omega
  ordered := by
    refine List.pairwise_cons.mpr ⟨fun other hmem => ?_, h.ordered⟩
    rw [hrange]
    exact (h.inside other hmem).1
  gaps := by
    refine ⟨?_, ?_⟩
    · rw [hrange]
      exact .none
    · rw [hrange]
      exact h.gaps

theorem skip (htrivia : Trivia text a a') (h : Laid text a' items b) : Laid text a items b where
  inside := by
    have hle := htrivia.le
    intro item hmem
    have := h.inside item hmem
    omega
  ordered := h.ordered
  gaps := by
    have hgaps := h.gaps
    cases items with
    | nil => exact htrivia.trans hgaps
    | cons item rest => exact ⟨htrivia.trans hgaps.1, hgaps.2⟩

end Laid

section
variable {text : List Char}

/-! ## Clauses of a hole -/

theorem Cursor.Within.getElem?_head {c : Cursor} (hc : c.Within text) {a : Char}
    (h : c.ahead.head? = some a) : text[c.offset]? = some a := by
  rw [← Nat.add_zero c.offset, hc.getElem?, ← List.head?_eq_getElem?, h]

theorem Cursor.Within.getElem?_run {c : Cursor} (hc : c.Within text) {n : Nat} {a : Char}
    (h : n ≤ runLength a c.ahead) : ∀ i, i < n → text[c.offset + i]? = some a := by
  intro i hi
  obtain ⟨b, hb, heq⟩ := getElem?_of_lt_takeWhile (Nat.lt_of_lt_of_le hi h)
  rw [hc.getElem?, hb, eq_of_beq heq]

theorem formatLaid {c final : Cursor} {format : Option TextRange} (hc : c.Within text)
    (h : formatClause c = (format, final)) : FormatLaid text c.offset format final.offset := by
  unfold formatClause at h
  split at h
  · cases h
    exact ⟨hc.getElem?_head ‹_›, rfl, Nat.le_add_right _ _⟩
  · cases h
    rfl

theorem bracket?_ne_juxtaposition {opening close : Char} :
    bracket? opening ≠ some (.juxtaposition, close) := by
  unfold bracket?
  split <;> nofun

theorem Expr.Accounted.juxtaposed_eq {item : Expr} (h : item.Accounted text) :
    item.juxtaposed = [item] := by
  cases h with
  | literal => rfl
  | code => rfl
  | interpolated => rfl
  | @group _ _ delimiter _ _ _ hbracket _ _ _ _ =>
    cases delimiter with
    | juxtaposition => exact absurd hbracket bracket?_ne_juxtaposition
    | _ => rfl

theorem juxtaposed_juxtapose {items : List Expr} (h : ∀ item ∈ items, item.Accounted text)
    (offset : Nat) : (juxtapose items offset).juxtaposed = items := by
  cases items with
  | nil => rfl
  | cons first rest =>
    cases rest with
    | nil => exact (h first List.mem_cons_self).juxtaposed_eq
    | cons second rest => rfl

/-! ## At every depth -/

theorem accounted_textBetween {start stop : Cursor} {braces : Nat} :
    ∀ segment ∈ textBetween start stop, segment.Accounted text braces := by
  intro segment hmem
  unfold textBetween at hmem
  split at hmem
  · rw [List.mem_singleton.mp hmem]
    exact .text
  · cases hmem

mutual

theorem ItemsRun.laid {stops : List Char} {c final : Cursor} {items : List Expr}
    (h : ItemsRun stops c items final) (hc : c.Within text) :
    Laid text c.offset items final.offset := by
  match h with
  | .stop _ => exact .nil .none
  | .trivia hread h =>
    have hrest := h.laid (hc.reaches (Cursor.reaches_of_read hread))
    exact hrest.skip (trivia_of_read hc hread)
  | .literal hread h =>
    have hrest := h.laid (hc.reaches (Cursor.reaches_of_read hread))
    exact .cons rfl (Nat.lt_add_of_pos_right (Cursor.fits_of_read hread).1) hrest
  | .code hread h =>
    have hrest := h.laid (hc.reaches (Cursor.reaches_of_read hread))
    exact .cons rfl (Nat.lt_add_of_pos_right (Cursor.fits_of_read hread).1) hrest
  | .group hread hchildren hclose h =>
    have hinner := (Cursor.reaches_of_read hread).trans hchildren.reaches
    have hafter := hinner.trans (.advance _ (one_le_of_head? hclose))
    exact .cons rfl (Nat.lt_succ_of_le hinner.offset_le) (h.laid (hc.reaches hafter))
  | .string hread hsegments h =>
    have hmarker := marker_le (Cursor.fits_of_read hread)
    have hinner := (Cursor.Reaches.enter c hmarker.2).trans hsegments.reaches
    have hfits := Cursor.fits_of_part hsegments.closes
    have hafter := hinner.trans (Cursor.reaches_run hfits.2)
    refine .cons rfl ?_ (h.laid (hc.reaches hafter))
    exact Nat.lt_of_le_of_lt hinner.offset_le (Nat.lt_add_of_pos_right hfits.1)

theorem ItemsRun.accounted {stops : List Char} {c final : Cursor} {items : List Expr}
    (h : ItemsRun stops c items final) (hc : c.Within text) :
    ∀ item ∈ items, item.Accounted text := by
  match h with
  | .stop _ => simp
  | .trivia hread h => exact h.accounted (hc.reaches (Cursor.reaches_of_read hread))
  | .literal hread h =>
    have hrest := h.accounted (hc.reaches (Cursor.reaches_of_read hread))
    exact List.forall_mem_cons.mpr ⟨.literal, hrest⟩
  | .code hread h =>
    have hrest := h.accounted (hc.reaches (Cursor.reaches_of_read hread))
    exact List.forall_mem_cons.mpr ⟨.code, hrest⟩
  | .group hread hchildren hclose h =>
    have hfits := Cursor.fits_of_read hread
    have hinside := hc.reaches (Cursor.reaches_of_read hread)
    have hinner := hinside.reaches hchildren.reaches
    have hrest := h.accounted (hinner.reaches (.advance _ (one_le_of_head? hclose)))
    refine List.forall_mem_cons.mpr ⟨?_, hrest⟩
    exact .group hfits.2 (hc.getElem?_head hfits.1) (hinner.getElem?_head hclose)
      (hchildren.laid hinside) (hchildren.accounted hinside)
  | .string hread hsegments h =>
    have hmarker := marker_le (Cursor.fits_of_read hread)
    have hinside := hc.reaches (Cursor.Reaches.enter c hmarker.2)
    have hquotes := Cursor.reaches_run (Cursor.fits_of_part hsegments.closes).2
    have hrest := h.accounted (hinside.reaches (hsegments.reaches.trans hquotes))
    exact List.forall_mem_cons.mpr ⟨.interpolated (hsegments.accounted hinside), hrest⟩

theorem SegmentsRun.accounted {kind : StringKind} {pending c final : Cursor}
    {segments : List Segment} (h : SegmentsRun kind pending c segments final)
    (hc : c.Within text) : ∀ segment ∈ segments, segment.Accounted text kind.braces := by
  match h with
  | .close _ => exact accounted_textBetween
  | .text hread h => exact h.accounted (hc.reaches (.advance c (Cursor.fits_of_part hread).2))
  | .hole hread hhole h =>
    have hbraces := (Cursor.fits_of_part hread).2
    have hrest := h.accounted (hc.reaches (hhole.reaches hbraces))
    refine List.forall_mem_append.mpr ⟨accounted_textBetween, ?_⟩
    exact List.forall_mem_cons.mpr ⟨hhole.accounted hbraces hc, hrest⟩

theorem HoleRun.accounted {braces : Nat} {c final : Cursor} {hole : Segment}
    (h : HoleRun braces c hole final) (hbraces : braces ≤ runLength '\x7b' c.ahead)
    (hc : c.Within text) : hole.Accounted text braces := by
  match h with
  | .closed hitems halignment hformat hclose =>
    have hinside := hc.reaches (Cursor.reaches_run hbraces)
    have hc₁ := hinside.reaches hitems.reaches
    have hc₂ := hc₁.reaches halignment.reaches
    have hc₃ := hc₂.reaches (formatClause_reaches hformat)
    have hparts := hitems.accounted hinside
    have hsame := juxtaposed_juxtapose hparts
    obtain ⟨hclause, hclauseParts⟩ := halignment.accounted hc₁
    refine .hole ⟨?_, hc.getElem?_run hbraces, ?_, hclause, formatLaid hc₂ hformat,
      hc₃.getElem?_run hclose⟩ ?_ hclauseParts
    · exact ⟨hitems.reaches.offset_le, halignment.reaches.offset_le,
        (formatClause_reaches hformat).offset_le, rfl⟩
    · rw [hsame]
      exact hitems.laid hinside
    · rw [hsame]
      exact hparts

theorem AlignmentRun.accounted {c final : Cursor} {alignment : Option Expr}
    (h : AlignmentRun c alignment final) (hc : c.Within text) :
    AlignmentLaid text c.offset alignment final.offset ∧
      ∀ clause ∈ alignment, ∀ item ∈ clause.juxtaposed, item.Accounted text := by
  match h with
  | .absent _ => exact ⟨rfl, by simp⟩
  | .present hcomma h =>
    have hinside := hc.reaches (Cursor.Reaches.advance c (one_le_of_head? hcomma))
    have hparts := h.accounted hinside
    have hsame := juxtaposed_juxtapose hparts
    refine ⟨⟨hc.getElem?_head hcomma, ?_⟩, ?_⟩
    · rw [hsame]
      exact h.laid hinside
    · intro clause hclause
      cases hclause
      rw [hsame]
      exact hparts

end

end

/-! ## Where a text ends -/

theorem Lexeme.eq_nil_of_ofItem {stops cs : List Char} (h : Lexeme.ofItem stops cs = .stop) :
    cs = [] := by
  have hitem := Lexeme.itemOf_ofItem stops cs
  rw [h] at hitem
  exact hitem

/-- Without stops only the end of the text ends the items. -/
theorem Lexeme.eq_nil_of_read {lineStart : Bool} {cs : List Char}
    (h : Lexeme.read [] lineStart cs = .stop) : cs = [] := by
  unfold Lexeme.read at h
  split at h
  · rfl
  · simp only [List.contains_nil, Bool.false_and, Bool.false_eq_true, ite_false] at h
    split at h
    · cases h
    · split at h
      · cases h
      · split at h
        · split at h <;> cases h
        · split at h
          · cases h
          · exact Lexeme.eq_nil_of_ofItem h

theorem Cursor.Within.ends {text : List Char} {c : Cursor} (hc : c.Within text)
    (h : Lexeme.read [] c.lineStart c.ahead = .stop) : c.offset = text.length := by
  have hlength := hc.offset_add
  rw [Lexeme.eq_nil_of_read h] at hlength
  exact hlength

theorem ItemsRun.ends {text : List Char} {items : List Expr} {final : Cursor}
    (h : ItemsRun [] (Cursor.atStart text) items final) : final.offset = text.length :=
  ((Cursor.Within.atStart text).reaches h.reaches).ends h.stops

/-- No text is lost and none is taken twice: the items of a text are laid out from behind its byte
order mark to its end with only trivia around them, and so is all that is nested in them. -/
theorem SourceTree.ofSource_accounted {source : String} {tree : SourceTree}
    (h : SourceTree.ofSource source = .ok tree) :
    Laid source.toList (LineIndex.markLength source.toList) tree.items source.length ∧
      ∀ item ∈ tree.items, item.Accounted source.toList := by
  obtain ⟨⟨final, hrun⟩, -⟩ := SourceTree.ofChars_eq_ok_iff.mp h
  have hstart := Cursor.Within.atStart source.toList
  have hlaid := hrun.laid hstart
  rw [hrun.ends, String.length_toList] at hlaid
  exact ⟨hlaid, hrun.accounted hstart⟩

/-- A directive line, both kinds of comments, and a hole with all its clauses. -/
theorem SourceTree.clauses_accounted :
    ∃ source tree, source = "\ufeff#if a\nf(/*b*/ $\"\x7bc ,1:d\x7d\") //e" ∧
      SourceTree.ofSource source = .ok tree ∧ tree.items.length = 2 ∧
      Laid source.toList (LineIndex.markLength source.toList) tree.items source.length ∧
      ∀ item ∈ tree.items, item.Accounted source.toList := by
  refine ⟨_, _, rfl, rfl, rfl, ?_⟩
  exact SourceTree.ofSource_accounted rfl

end InterpolationLint
