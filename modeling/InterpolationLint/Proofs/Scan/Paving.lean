import InterpolationLint.Proofs.Scan.Newlines

/-!
# Comments, code and string text

From its start to its end a scanned text is paved with three kinds of pieces: comments and directive
lines, which the scanner skips, plain pieces, where no comment begins, and string text. String text
may look like a comment, but not beyond its end: there stands a quote or a brace.
-/

namespace InterpolationLint

/-! ## String text -/

mutual

/-- The ranges of string text in an expression, at any depth and in source order: plain literals, the
texts of interpolated strings, and the formats of their holes. -/
def Expr.texts : Expr → List TextRange
  | .interpolated ⟨_, _, _, _, segments⟩ => Segment.textsOf segments
  | .literal range => [range]
  | .code _ => []
  | .group _ _ children => Expr.textsOf children

def Expr.textsOf : List Expr → List TextRange
  | [] => []
  | expr :: rest => expr.texts ++ Expr.textsOf rest

def Segment.textsOf : List Segment → List TextRange
  | [] => []
  | .text _ range :: rest => range :: Segment.textsOf rest
  | .hole _ expression none format :: rest =>
    expression.texts ++ (format.toList ++ Segment.textsOf rest)
  | .hole _ expression (some alignment) format :: rest =>
    expression.texts ++ (alignment.texts ++ (format.toList ++ Segment.textsOf rest))

end

def SourceTree.texts (tree : SourceTree) : List TextRange := Expr.textsOf tree.items

def Segment.texts : Segment → List TextRange
  | .text _ range => [range]
  | .hole _ expression alignment format =>
    expression.texts ++ (Expr.textsOf alignment.toList ++ format.toList)

theorem textsOf_cons (segment : Segment) (rest : List Segment) :
    Segment.textsOf (segment :: rest) = segment.texts ++ Segment.textsOf rest := by
  cases segment with
  | text written range => rfl
  | hole range expression alignment format =>
    cases alignment with
    | none => simp [Segment.textsOf, Segment.texts, Expr.textsOf]
    | some alignment => simp [Segment.textsOf, Segment.texts, Expr.textsOf]

theorem texts_juxtapose (items : List Expr) (offset : Nat) :
    (juxtapose items offset).texts = Expr.textsOf items := by
  cases items with
  | nil => rfl
  | cons first rest =>
    cases rest with
    | nil => simp [juxtapose, Expr.textsOf]
    | cons second rest => simp [juxtapose, Expr.texts]

theorem textsOf_textBetween_append (start stop : Cursor) (segments : List Segment) :
    Segment.textsOf (textBetween start stop ++ segments) =
      Segment.textsOf (textBetween start stop) ++ Segment.textsOf segments := by
  unfold textBetween
  split
  · rfl
  · rfl

/-! ## Where no comment begins -/

theorem BeginsComment.head? {cs : List Char} (h : BeginsComment cs) : cs.head? = some '/' := by
  rcases h with ⟨rest, rfl⟩ | ⟨rest, rfl⟩
  · rfl
  · rfl

theorem not_beginsComment_of_head? {cs : List Char} (h : cs.head? ≠ some '/') :
    ¬BeginsComment cs := fun hcomment => h hcomment.head?

theorem BeginsComment.startsItem {cs : List Char} (h : BeginsComment cs) :
    startsItem cs = true := by
  rcases h with ⟨rest, rfl⟩ | ⟨rest, rfl⟩
  · rfl
  · rfl

def Uncommented (cs : List Char) (n : Nat) : Prop := ∀ i, i < n → ¬BeginsComment (cs.drop i)

theorem Uncommented.zero (cs : List Char) : Uncommented cs 0 := by
  intro i hi
  cases hi

theorem Uncommented.succ {cs : List Char} {n : Nat} (hfront : ¬BeginsComment cs)
    (h : Uncommented (cs.drop 1) n) : Uncommented cs (n + 1) := by
  intro i hi
  cases i with
  | zero => exact hfront
  | succ i =>
    rw [Nat.add_comm, ← List.drop_drop]
    exact h i (Nat.lt_of_succ_lt_succ hi)

theorem Uncommented.of_not_mem {cs : List Char} {n : Nat} (h : '/' ∉ cs.take n) :
    Uncommented cs n := by
  intro i hi
  apply not_beginsComment_of_head?
  intro hslash
  rw [List.head?_drop] at hslash
  exact h (List.mem_of_getElem? ((List.getElem?_take_of_lt hi).trans hslash))

theorem Uncommented.colons {rest : List Char} {n : Nat} (h : Uncommented rest n) :
    Uncommented (':' :: ':' :: rest) (n + 2) := by
  have hcolon : ∀ cs, ¬BeginsComment (':' :: cs) := fun cs =>
    not_beginsComment_of_head? (by simp)
  exact .succ (hcolon _) (.succ (hcolon _) h)

theorem codeTail_uncommented (stops cs : List Char) : Uncommented cs (codeTail stops cs) := by
  fun_induction codeTail stops cs with
  | case1 => exact .zero _
  | case2 rest ih => exact ih.colons
  | case3 => exact .zero _
  | case4 c rest _ hstop ih =>
    refine .succ ?_ ih
    intro h
    simp [h.startsItem] at hstop

theorem numberLength_uncommented (cs : List Char) : Uncommented cs (numberLength cs) := by
  fun_induction numberLength cs with
  | case1 => exact .zero _
  | case2 c rest hc ih =>
    refine .succ ?_ ih
    apply not_beginsComment_of_head?
    intro hslash
    cases hslash
    simp at hc
  | case3 => exact .zero _

theorem Lexeme.codeLength_of_ofItem {stops cs : List Char} {n : Nat}
    (h : Lexeme.ofItem stops cs = .code n) : n = codeLength stops cs := by
  have hitem := Lexeme.itemOf_ofItem stops cs
  rw [h] at hitem
  exact hitem

theorem Lexeme.uncommented_of_read_code {stops cs : List Char} {lineStart : Bool} {n : Nat}
    (h : Lexeme.read stops lineStart cs = .code n) : Uncommented cs n := by
  have hfront := Lexeme.itemFront_of_read h rfl
  obtain rfl := codeLength_of_ofItem hfront.item
  rcases codeLength_cases stops cs with ⟨rest, rfl, hlength⟩ | hlength
  · rw [hlength]
    exact (codeTail_uncommented stops rest).colons
  · rw [hlength]
    exact .succ hfront.uncommented (codeTail_uncommented stops _)

/-! ## Where string text ends -/

def EndsWith (last : Char) (cs : List Char) (n : Nat) : Prop :=
  ∃ m, n = m + 1 ∧ cs[m]? = some last

theorem EndsWith.cons {last : Char} {cs : List Char} {n : Nat} (h : EndsWith last cs n) (c : Char) :
    EndsWith last (c :: cs) (n + 1) := by
  obtain ⟨m, rfl, hm⟩ := h
  exact ⟨m + 1, rfl, hm⟩

theorem EndsWith.of_drop {last : Char} {cs : List Char} {k n : Nat}
    (h : EndsWith last (cs.drop k) n) : EndsWith last cs (n + k) := by
  obtain ⟨m, rfl, hm⟩ := h
  rw [List.getElem?_drop, Nat.add_comm] at hm
  exact ⟨m + k, by omega, hm⟩

theorem quotedTail_endsWith {quote : Char} {cs : List Char} {n : Nat}
    (h : quotedTail quote cs = some n) : EndsWith quote cs n := by
  obtain ⟨body, rest, rfl, rfl, -⟩ := quotedTail_eq_some h
  exact ⟨body.length, rfl, by simp⟩

theorem verbatimTail_endsWith {cs : List Char} {n : Nat} (h : verbatimTail cs = some n) :
    EndsWith '"' cs n := by
  fun_induction verbatimTail cs generalizing n with
  | case1 => cases h
  | case2 rest ih =>
    obtain ⟨m, hm, rfl⟩ := Option.map_eq_some_iff.mp h
    exact ((ih hm).cons _).cons _
  | case3 =>
    cases h
    exact ⟨0, rfl, rfl⟩
  | case4 c rest _ _ ih =>
    obtain ⟨m, hm, rfl⟩ := Option.map_eq_some_iff.mp h
    exact (ih hm).cons c

/-- Where a raw literal ends, its last run of quotes is complete. -/
theorem rawTail_endsWith {quotes run : Nat} {cs : List Char} {n : Nat} (hquotes : 1 ≤ quotes)
    (h : rawTail quotes run cs = some n) :
    n = 0 ∧ quotes ≤ run ∨ EndsWith '"' cs n := by
  fun_induction rawTail quotes run cs generalizing n with
  | case1 run hrun =>
    cases h
    exact .inl ⟨rfl, hrun⟩
  | case2 => cases h
  | case3 run rest ih =>
    obtain ⟨m, hm, rfl⟩ := Option.map_eq_some_iff.mp h
    rcases ih hm with ⟨rfl, -⟩ | hends
    · exact .inr ⟨0, rfl, rfl⟩
    · exact .inr (hends.cons _)
  | case4 run c rest _ hrun =>
    cases h
    exact .inl ⟨rfl, hrun⟩
  | case5 run c rest _ _ ih =>
    -- behind any other character the run begins again, with no quote
    obtain ⟨m, hm, rfl⟩ := Option.map_eq_some_iff.mp h
    rcases ih hm with ⟨-, hle⟩ | hends
    · omega
    · exact .inr (hends.cons c)

theorem stringLength_endsWith {cs : List Char} {n : Nat} (h : stringLength cs = some n) :
    EndsWith '"' cs n := by
  unfold stringLength at h
  dsimp only at h
  split at h
  · obtain ⟨m, hm, rfl⟩ := Option.map_eq_some_iff.mp h
    rcases rawTail_endsWith (by omega) hm with ⟨-, hle⟩ | hends
    · omega
    · exact hends.of_drop
  · obtain ⟨m, hm, rfl⟩ := Option.map_eq_some_iff.mp h
    exact (quotedTail_endsWith hm).of_drop

theorem Lexeme.ends_of_read_literal {stops cs : List Char} {lineStart : Bool} {n : Nat}
    (h : Lexeme.read stops lineStart cs = .literal n) :
    Uncommented cs n ∨ EndsWith '"' cs n ∨ EndsWith '\'' cs n := by
  have hitem := (itemFront_of_read h rfl).item
  unfold Lexeme.ofItem at hitem
  split at hitem
  · cases hitem
  · split at hitem
    · cases hitem
    · exact .inr (.inl (stringLength_endsWith (eq_some_of_ofLiteral? hitem)))
    · obtain ⟨m, hm, rfl⟩ := Option.map_eq_some_iff.mp (eq_some_of_ofLiteral? hitem)
      exact .inr (.inl (((verbatimTail_endsWith hm).cons _).cons _))
    · obtain ⟨m, hm, rfl⟩ := Option.map_eq_some_iff.mp (eq_some_of_ofLiteral? hitem)
      exact .inr (.inr ((quotedTail_endsWith hm).cons _))
    · split at hitem
      · cases hitem
      · split at hitem
        · cases hitem
          exact .inl (numberLength_uncommented _)
        · split at hitem <;> cases hitem

/-! ## Pieces of a text -/

def NoComment (text : List Char) (a b : Nat) : Prop :=
  ∀ o, a ≤ o → o < b → ¬BeginsComment (text.drop o)

/-- The scanner skips a comment or a directive line from one offset to another. -/
def SkipsComment (text : List Char) (a b : Nat) : Prop :=
  ∃ stops c n, Visited text (.items stops c) ∧ Lexeme.read stops c.lineStart c.ahead = .trivia n ∧
    (BeginsComment c.ahead ∨ c.ahead.head? = some '#' ∧ c.lineStart = true) ∧
    a = c.offset ∧ b = c.offset + n

/-- Quotes and braces stand at the ends of string text, with it or behind it. -/
def fences : List Char := ['"', '\'', '\x7b', '\x7d']

def Fenced (text : List Char) (a b : Nat) : Prop :=
  NoComment text a b ∨ ∃ p fence, b ≤ p + 1 ∧ p ≤ b ∧ text[p]? = some fence ∧ fence ∈ fences

/-- Comments, plain pieces and string text from one offset to another, with the ranges of the
latter. -/
inductive Paved (text : List Char) : Nat → List TextRange → Nat → Prop
  | done {a} : Paved text a [] a
  | comment {a m b ranges} : a ≤ m → SkipsComment text a m → Paved text m ranges b →
      Paved text a ranges b
  | plain {a m b ranges} : a ≤ m → NoComment text a m → Paved text m ranges b →
      Paved text a ranges b
  | string {a m b ranges} : a ≤ m → Fenced text a m → Paved text m ranges b →
      Paved text a (⟨a, m⟩ :: ranges) b

namespace Paved

variable {text : List Char} {a b d : Nat} {ranges more : List TextRange}

theorem append (h : Paved text a ranges b) (h' : Paved text b more d) :
    Paved text a (ranges ++ more) d := by
  induction h with
  | done => exact h'
  | comment hle hskips _ ih => exact .comment hle hskips (ih h')
  | plain hle hplain _ ih => exact .plain hle hplain (ih h')
  | string hle hfenced _ ih => exact .string hle hfenced (ih h')

theorem start_le (h : Paved text a ranges b) : ∀ range ∈ ranges, a ≤ range.start := by
  induction h with
  | done => simp
  | comment hle _ _ ih => exact fun range hrange => Nat.le_trans hle (ih range hrange)
  | plain hle _ _ ih => exact fun range hrange => Nat.le_trans hle (ih range hrange)
  | string hle _ _ ih =>
    refine List.forall_mem_cons.mpr ⟨Nat.le_refl _, ?_⟩
    exact fun range hrange => Nat.le_trans hle (ih range hrange)

end Paved

theorem TextRange.contains_single {range : TextRange} {o : Nat} :
    range.contains (.single o) = true ↔ range.start ≤ o ∧ o < range.stop := by
  rw [contains, single, Bool.and_eq_true, decide_eq_true_iff, decide_eq_true_iff, Nat.succ_le_iff]

/-- The scanner skips this offset, in a comment or a directive line, and it is in no string text. -/
structure CommentAt (text : List Char) (ranges : List TextRange) (o : Nat) : Prop where
  skipped : ∃ a b, SkipsComment text a b ∧ a ≤ o ∧ o < b
  outside : ∀ range ∈ ranges, range.contains (.single o) = false

/-- What looks like a comment is one, or it is string text. -/
theorem Paved.comment_or_string {text : List Char} {a b : Nat} {ranges : List TextRange}
    (h : Paved text a ranges b) {o : Nat} (ha : a ≤ o) (hb : o < b)
    (ho : BeginsComment (text.drop o)) :
    CommentAt text ranges o ∨
      ∃ range ∈ ranges, range.contains (.single o) = true ∧ Fenced text range.start range.stop := by
  induction h with
  | done => omega
  | @comment a m b ranges hle hskips h ih =>
    rcases Nat.lt_or_ge o m with hlt | hge
    · refine .inl ⟨⟨a, m, hskips, ha, hlt⟩, fun range hrange => ?_⟩
      have hstart := h.start_le range hrange
      rw [← Bool.not_eq_true, TextRange.contains_single]
      omega
    · exact ih hge hb
  | @plain a m b ranges hle hplain h ih =>
    rcases Nat.lt_or_ge o m with hlt | hge
    · exact absurd ho (hplain o ha hlt)
    · exact ih hge hb
  | @string a m b ranges hle hfenced h ih =>
    rcases Nat.lt_or_ge o m with hlt | hge
    · exact .inr ⟨⟨a, m⟩, List.mem_cons_self, TextRange.contains_single.mpr ⟨ha, hlt⟩, hfenced⟩
    · have hbefore : TextRange.contains ⟨a, m⟩ (.single o) = false := by
        rw [← Bool.not_eq_true, TextRange.contains_single]
        exact fun hin => Nat.not_lt.mpr hge hin.2
      rcases ih hge hb with ⟨hskips, hout⟩ | ⟨range, hrange, hin⟩
      · exact .inl ⟨hskips, List.forall_mem_cons.mpr ⟨hbefore, hout⟩⟩
      · exact .inr ⟨range, List.mem_cons_of_mem _ hrange, hin⟩

/-! ## Runs pave their text -/

section
variable {text : List Char} {c : Cursor}

theorem Cursor.Within.noComment (hc : c.Within text) {n : Nat}
    (h : Uncommented c.ahead n) : NoComment text c.offset (c.offset + n) := by
  intro o ha hb
  obtain ⟨i, rfl⟩ := Nat.exists_eq_add_of_le ha
  rw [← List.drop_drop, hc.drop_offset]
  exact h i (by omega)

theorem Cursor.Within.noComment_run (hc : c.Within text) {n : Nat} {a : Char} (ha : a ≠ '/')
    (h : n ≤ runLength a c.ahead) : NoComment text c.offset (c.offset + n) := by
  refine hc.noComment (.of_not_mem ?_)
  rw [take_of_le_runLength h]
  simp [ha.symm]

theorem Cursor.Within.noComment_head (hc : c.Within text) {a : Char} (ha : a ≠ '/')
    (h : c.ahead.head? = some a) : NoComment text c.offset (c.offset + 1) := by
  obtain ⟨rest, hahead⟩ := List.head?_eq_some_iff.mp h
  apply hc.noComment_run ha
  rw [hahead, runLength_cons_self]
  omega

theorem Cursor.Within.noComment_marker (hc : c.Within text) {kind : StringKind} {n : Nat}
    (h : opening? c.ahead = some (kind, n)) : NoComment text c.offset (c.offset + n) := by
  obtain ⟨marker, rest, hahead, rfl, hmarked⟩ := opening?_marked h
  refine hc.noComment (.of_not_mem ?_)
  rw [hahead, List.take_left]
  exact fun hmem => absurd (hmarked.subset hmem) (by decide)

theorem bracket?_ne_slash {bracket close : Char} {delimiter : Delimiter}
    (h : bracket? bracket = some (delimiter, close)) : bracket ≠ '/' ∧ close ≠ '/' := by
  unfold bracket? at h
  split at h
  · cases h
    decide
  · cases h
    decide
  · cases h
    decide
  · cases h

theorem Cursor.Within.fenced (hc : c.Within text) {n : Nat} {last : Char} (hlast : last ∈ fences)
    (h : EndsWith last c.ahead n) : Fenced text c.offset (c.offset + n) := by
  obtain ⟨m, rfl, hm⟩ := h
  refine .inr ⟨c.offset + m, last, by omega, by omega, ?_, hlast⟩
  rw [hc.getElem?, hm]

theorem Cursor.Within.fenced_literal (hc : c.Within text) {stops : List Char} {n : Nat}
    (h : Lexeme.read stops c.lineStart c.ahead = .literal n) :
    Fenced text c.offset (c.offset + n) := by
  rcases Lexeme.ends_of_read_literal h with hnone | hends | hends
  · exact .inl (hc.noComment hnone)
  · exact hc.fenced (by decide) hends
  · exact hc.fenced (by decide) hends

theorem Cursor.Within.fenced_before (hc : c.Within text) {fence : Char} (hfence : fence ∈ fences)
    (h : c.ahead.head? = some fence) (a : Nat) : Fenced text a c.offset :=
  .inr ⟨c.offset, fence, Nat.le_succ _, Nat.le_refl _, hc.getElem?_head h, hfence⟩

theorem head?_of_runLength {a : Char} {cs : List Char} {n : Nat} (hn : 1 ≤ n)
    (h : n ≤ runLength a cs) : cs.head? = some a := by
  rcases runLength_eq_zero_or a cs with hz | ⟨rest, rfl⟩
  · omega
  · rfl

theorem Visited.paved_trivia {stops : List Char} {n b : Nat} {ranges : List TextRange}
    (hc : Visited text (.items stops c))
    (hread : Lexeme.read stops c.lineStart c.ahead = .trivia n)
    (h : Paved text (c.offset + n) ranges b) : Paved text c.offset ranges b := by
  rcases Lexeme.read_trivia hread with hblank | ⟨rest, hcs, -⟩ | ⟨rest, m, hcs, -⟩ |
    ⟨rest, hcs, hline, -⟩
  · refine .plain (Nat.le_add_right _ _) (hc.sound.1.noComment ?_) h
    intro i hi
    obtain ⟨a, ha, hblank⟩ := getElem?_of_lt_takeWhile (hblank ▸ hi)
    apply not_beginsComment_of_head?
    rw [List.head?_drop, ha]
    rintro ⟨⟩
    exact absurd hblank (by decide)
  · exact .comment (Nat.le_add_right _ _)
      ⟨stops, c, n, hc, hread, .inl (.inl ⟨rest, hcs.symm⟩), rfl, rfl⟩ h
  · exact .comment (Nat.le_add_right _ _)
      ⟨stops, c, n, hc, hread, .inl (.inr ⟨rest, hcs.symm⟩), rfl, rfl⟩ h
  · exact .comment (Nat.le_add_right _ _)
      ⟨stops, c, n, hc, hread, .inr ⟨by rw [hcs, List.head?_cons], hline⟩, rfl, rfl⟩ h

theorem paved_textBetween {pending : Cursor} (hpending : pending.Reaches c) (hc : c.Within text)
    {fence : Char} (hfence : fence ∈ fences) (hhead : c.ahead.head? = some fence) :
    Paved text pending.offset (Segment.textsOf (textBetween pending c)) c.offset := by
  unfold textBetween
  split
  · exact .string (Nat.le_of_lt ‹_›) (hc.fenced_before hfence hhead _) .done
  · have hsame : pending.offset = c.offset :=
      Nat.le_antisymm hpending.offset_le (Nat.le_of_not_lt ‹_›)
    rw [hsame]
    exact .done

theorem paved_format {final : Cursor} {format : Option TextRange} (hc : c.Within text)
    (h : formatClause c = (format, final)) (hclose : final.ahead.head? = some '\x7d') :
    Paved text c.offset format.toList final.offset := by
  have hfinal := hc.reaches (formatClause_reaches h)
  unfold formatClause at h
  split at h
  · cases h
    have hcolon := hc.noComment_head (by decide) ‹c.ahead.head? = some ':'›
    refine .plain (Nat.le_add_right _ _) hcolon (.string (Nat.le_add_right _ _) ?_ .done)
    exact hfinal.fenced_before (by decide) hclose _
  · cases h
    exact .done

-- The places that are visited are carried along: what looks like a comment is skipped as one only
-- where the scanner reads items.
mutual

theorem ItemsRun.paved {stops : List Char} {c final : Cursor} {items : List Expr}
    (h : ItemsRun stops c items final) (hc : Visited text (.items stops c)) :
    Paved text c.offset (Expr.textsOf items) final.offset := by
  match h with
  | .stop _ => exact .done
  | .trivia hread h => exact hc.paved_trivia hread (h.paved (hc.step (.trivia hread)))
  | .literal hread h =>
    have hrest := h.paved (hc.step (.literal hread))
    exact .string (Nat.le_add_right _ _) (hc.sound.1.fenced_literal hread) hrest
  | .code hread h =>
    have hcode := hc.sound.1.noComment (Lexeme.uncommented_of_read_code hread)
    exact .plain (Nat.le_add_right _ _) hcode (h.paved (hc.step (.code hread)))
  | .group hread hchildren hclose h =>
    have hfits := Cursor.fits_of_read hread
    have hslash := bracket?_ne_slash hfits.2
    have hinside := hc.step (.children hread)
    have hopening := hc.sound.1.noComment_head hslash.1 hfits.1
    have hclosing := (hinside.sound.1.reaches hchildren.reaches).noComment_head hslash.2 hclose
    have hrest := h.paved (hc.step (.behindGroup hread hchildren hclose))
    refine .plain (Nat.le_add_right _ _) hopening ?_
    exact (hchildren.paved hinside).append (.plain (Nat.le_add_right _ _) hclosing hrest)
  | .string hread hsegments h =>
    have hinside := hc.step (.segments hread)
    have hmarker := hc.sound.1.noComment_marker (Cursor.fits_of_read hread)
    have hinner := hinside.sound.1.reaches hsegments.reaches
    have hquotes := hinner.noComment_run (by decide) (Cursor.fits_of_part hsegments.closes).2
    have hrest := h.paved (hc.step (.behindString hread hsegments))
    refine .plain (Nat.le_add_right _ _) hmarker ?_
    exact (hsegments.paved (.refl _) hinside).append (.plain (Nat.le_add_right _ _) hquotes hrest)

theorem SegmentsRun.paved {kind : StringKind} {opened : Nat} {pending c final : Cursor}
    {segments : List Segment} (h : SegmentsRun kind pending c segments final)
    (hpending : pending.Reaches c) (hc : Visited text (.segments kind opened pending c)) :
    Paved text pending.offset (Segment.textsOf segments) final.offset := by
  match h with
  | .close hread =>
    have hquotes := Cursor.fits_of_part hread
    exact paved_textBetween hpending hc.sound.1 (by decide)
      (head?_of_runLength hquotes.1 hquotes.2)
  | .text hread h =>
    have hlonger := hpending.trans (.advance c (Cursor.fits_of_part hread).2)
    exact h.paved hlonger (hc.step (.text hread))
  | .hole hread hhole h =>
    -- the text before a hole ends at its brace
    have hbraces := Cursor.fits_of_part hread
    have htext := paved_textBetween hpending hc.sound.1 (by decide)
      (head?_of_runLength hbraces.1 hbraces.2)
    have hrest := h.paved (.refl _) (hc.step (.behindHole hread hhole))
    rw [textsOf_textBetween_append, textsOf_cons]
    exact htext.append ((hhole.paved hbraces (hc.step (.hole hread))).append hrest)

theorem HoleRun.paved {braces : Nat} {c final : Cursor} {hole : Segment}
    (h : HoleRun braces c hole final) (hbraces : 1 ≤ braces ∧ braces ≤ runLength '\x7b' c.ahead)
    (hc : Visited text (.hole braces c)) : Paved text c.offset hole.texts final.offset := by
  match h with
  | .closed hitems halignment hformat hclose =>
    have hinside := hc.step .expression
    have hc₁ := hinside.sound.1.reaches hitems.reaches
    have hc₂ := hc₁.reaches halignment.reaches
    have hc₃ := hc₂.reaches (formatClause_reaches hformat)
    have hopening := hc.sound.1.noComment_run (by decide) hbraces.2
    have hclosing := hc₃.noComment_run (by decide) hclose
    have hclauses := halignment.paved hc₁ fun hcomma => hc.step (.alignment hitems hcomma)
    have hformats := paved_format hc₂ hformat (head?_of_runLength hbraces.1 hclose)
    have hbehind := hformats.append (.plain (Nat.le_add_right _ _) hclosing .done)
    rw [List.append_nil] at hbehind
    rw [Segment.texts, texts_juxtapose]
    refine .plain (Nat.le_add_right _ _) hopening ?_
    exact (hitems.paved hinside).append (hclauses.append hbehind)

theorem AlignmentRun.paved {c final : Cursor} {alignment : Option Expr}
    (h : AlignmentRun c alignment final) (hwithin : c.Within text)
    (hc : c.ahead.head? = some ',' → Visited text (.items alignmentStops (c.advance 1))) :
    Paved text c.offset (Expr.textsOf alignment.toList) final.offset := by
  match h with
  | .absent _ => exact .done
  | .present hcomma h =>
    have hopening := hwithin.noComment_head (by decide) hcomma
    rw [Option.toList_some, Expr.textsOf, Expr.textsOf, List.append_nil, texts_juxtapose]
    exact .plain (Nat.le_add_right _ _) hopening (h.paved (hc hcomma))

end

end

theorem SourceTree.paved {text : List Char} {tree : SourceTree}
    (h : SourceTree.ofChars text = .ok tree) :
    Paved text (LineIndex.markLength text) tree.texts text.length := by
  obtain ⟨⟨final, hrun⟩, -⟩ := SourceTree.ofChars_eq_ok_iff.mp h
  rw [← hrun.ends]
  exact hrun.paved .start

end InterpolationLint
