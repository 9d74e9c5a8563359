import InterpolationLint.Proofs.Scan.Continuation
import InterpolationLint.Proofs.Scan.LineEnds
import InterpolationLint.Proofs.Tree.LineEnds

/-!
# Runs over a text with returns

The scanner gives corresponding answers on a text with returns and without: the same strings at the
places that theirs move to, or the same failure there. Its runs are not of the same length, since a
return may be skipped or read as text on its own, so the budgets are independent.
-/

namespace InterpolationLint

section
variable (text : List Char)

def Cursor.stretched (c : Cursor) : Cursor where
  offset := stretch text c.offset
  ahead := withReturns c.ahead
  lineStart := c.lineStart
  opened := c.opened

def ScanFailure.stretched (failure : ScanFailure) : ScanFailure :=
  { failure with offset := stretch text failure.offset }

@[simp] theorem Cursor.stretched_offset (c : Cursor) :
    (c.stretched text).offset = stretch text c.offset := rfl
@[simp] theorem Cursor.stretched_ahead (c : Cursor) :
    (c.stretched text).ahead = withReturns c.ahead := rfl
@[simp] theorem Cursor.stretched_lineStart (c : Cursor) :
    (c.stretched text).lineStart = c.lineStart := rfl
@[simp] theorem Cursor.stretched_opened (c : Cursor) :
    (c.stretched text).opened = c.opened := rfl

/-- `r'` is the answer with returns where `r` is the one without, if that is an answer. What was
found is related by `R`. -/
def Corresponds {α : Type} (R : α → α → Prop) :
    Except Halt (α × Cursor) → Except Halt (α × Cursor) → Prop
  | .ok (a, c), r' => ∃ a', R a a' ∧ r' = .ok (a', c.stretched text)
  | .error (.failed failure), r' => r' = .error (.failed (failure.stretched text))
  | .error .exhausted, _ => True

variable {text} in
theorem Corresponds.ok {α : Type} {R : α → α → Prop} {a a' : α} {c : Cursor} (h : R a a') :
    Corresponds text R (.ok (a, c)) (.ok (a', c.stretched text)) :=
  ⟨a', h, rfl⟩

variable {text} in
theorem Corresponds.bind {α β : Type} {R : α → α → Prop} {S : β → β → Prop}
    {x x' : Except Halt (α × Cursor)} {f f' : α × Cursor → Except Halt (β × Cursor)}
    (hx : Corresponds text R x x')
    (hf : ∀ a c a', x = .ok (a, c) → R a a' →
      Corresponds text S (f (a, c)) (f' (a', c.stretched text))) :
    Corresponds text S (x >>= f) (x' >>= f') := by
  match x, hx with
  | .ok (a, c), hx =>
    obtain ⟨a', ha, rfl⟩ := hx
    exact hf a c a' rfl ha
  | .error (.failed failure), hx =>
    obtain rfl := hx
    exact rfl
  | .error .exhausted, _ => trivial

end

/-! ## Places -/

theorem lineStartAfter_withReturns (lineStart : Bool) (cs : List Char) :
    lineStartAfter lineStart (withReturns cs) = lineStartAfter lineStart cs := by
  induction cs generalizing lineStart with
  | nil => rfl
  | cons c cs ih =>
    by_cases hc : c = '\n'
    · simp [hc, withReturns_newline, lineStartAfter, ih]
    · rw [withReturns_cons hc, lineStartAfter, ih, lineStartAfter]

theorem Cursor.Reaches.returns_le {c d : Cursor} (h : c.Reaches d) :
    (withReturns d.ahead).length + d.offset ≤ (withReturns c.ahead).length + c.offset := by
  obtain ⟨read, h⟩ := h
  have hread : read.length ≤ (withReturns read).length := by
    have := le_stretch (Nat.le_refl read.length)
    rwa [stretch, List.take_length] at this
  rw [h.ahead, h.offset, withReturns_append, List.length_append]
  omega

theorem Cursor.length_withReturns_advance {c : Cursor} {n : Nat} (hn : n ≤ c.ahead.length) :
    (withReturns (c.advance n).ahead).length + n ≤ (withReturns c.ahead).length := by
  have := (Cursor.Reaches.advance c hn).returns_le
  rw [Cursor.advance_offset] at this
  omega

theorem Cursor.Reaches.returns_length_le {c d : Cursor} (h : c.Reaches d) :
    (withReturns d.ahead).length ≤ (withReturns c.ahead).length := by
  have := h.returns_le
  have := h.offset_le
  omega

namespace Cursor.Within

variable {text : List Char} {c : Cursor} (h : c.Within text)
include h

theorem plainEnds (hplain : PlainEnds text) : PlainEnds c.ahead := by
  rw [← h.drop_offset]
  exact hplain.drop c.offset

theorem stretch_offset_add (n : Nat) :
    stretch text (c.offset + n) = stretch text c.offset + stretch c.ahead n := by
  rw [stretch_add, h.drop_offset]

theorem stretched_advance (n : Nat) :
    (c.stretched text).advance (stretch c.ahead n) = (c.advance n).stretched text := by
  simp [Cursor.stretched, Cursor.advance, h.stretch_offset_add, drop_stretch, take_stretch,
    lineStartAfter_withReturns]

theorem stretched_advance_run {a : Char} (ha : a ≠ '\n') {n : Nat}
    (hn : n ≤ runLength a c.ahead) :
    (c.stretched text).advance n = (c.advance n).stretched text := by
  rw [← h.stretched_advance, stretch_run ha hn]

theorem stretched_advance_one {a : Char} (ha : a ≠ '\n') (hhead : c.ahead.head? = some a) :
    (c.stretched text).advance 1 = (c.advance 1).stretched text := by
  obtain ⟨rest, hrest⟩ := List.head?_eq_some_iff.mp hhead
  rw [← h.stretched_advance, hrest, stretch_cons ha, stretch_zero]

theorem stretched_enter {n : Nat} (hn : stretch c.ahead n = n) :
    (c.stretched text).enter n = (c.enter n).stretched text := by
  have hadvance := h.stretched_advance n
  rw [hn] at hadvance
  simp only [enter, hadvance]
  rfl

theorem stretch_run_stop {a : Char} (ha : a ≠ '\n') {n : Nat} (hn : n ≤ runLength a c.ahead) :
    stretch text (c.offset + n) = stretch text c.offset + n := by
  rw [h.stretch_offset_add, stretch_run ha hn]

theorem textBetween_returned {later : Cursor} (hlater : c.Reaches later) :
    List.Forall₂ (Segment.Returned text) (textBetween c later)
      (textBetween (c.stretched text) (later.stretched text)) := by
  have hle := (h.reaches hlater).offset_le
  obtain ⟨n, hn⟩ := Nat.exists_eq_add_of_le hlater.offset_le
  unfold textBetween
  by_cases hlt : c.offset < later.offset
  · have hstretch : stretch text c.offset < stretch text later.offset :=
      stretch_lt_stretch hlt hle
    have htext : (c.stretched text).textUpTo (later.stretched text) =
        withReturns (c.textUpTo later) := by
      simp only [textUpTo, stretched_offset, stretched_ahead, hn, h.stretch_offset_add,
        Nat.add_sub_cancel_left, take_stretch]
    rw [if_pos hlt, stretched_offset, stretched_offset, if_pos hstretch, htext]
    refine .cons ?_ .nil
    have := @Segment.Returned.text text (String.ofList (c.textUpTo later)) ⟨c.offset, later.offset⟩
    rwa [String.toList_ofList] at this
  · have heq : later.offset = c.offset := Nat.le_antisymm (Nat.le_of_not_lt hlt) hlater.offset_le
    rw [if_neg hlt, if_neg (by simp [heq])]
    exact .nil

end Cursor.Within

/-! ## What is found -/

def StringsReturned (text : List Char) (nodes nodes' : List InterpolatedString) : Prop :=
  List.Forall₂ (InterpolatedString.Returned text) nodes nodes'

def ItemsReturned (text : List Char) (items items' : List Expr) : Prop :=
  StringsReturned text (Expr.nodesOf items) (Expr.nodesOf items')

def AlignmentReturned (text : List Char) (alignment alignment' : Option Expr) : Prop :=
  ItemsReturned text alignment.toList alignment'.toList

def HoleReturned (text : List Char) (hole hole' : Segment) : Prop :=
  Segment.Returned text hole hole' ∧ StringsReturned text hole.nodes hole'.nodes

def SegmentsReturned (text : List Char) (segments segments' : List Segment) : Prop :=
  List.Forall₂ (Segment.Returned text) segments segments' ∧
    StringsReturned text (Segment.nodesOf segments) (Segment.nodesOf segments')

section
variable {text : List Char}

theorem nodesOf_textBetween (start stop : Cursor) :
    Segment.nodesOf (textBetween start stop) = [] := by
  simpa [Segment.nodesOf] using nodesOf_textBetween_append start stop []

theorem formatClause_stretched {c : Cursor} (h : c.Within text) :
    (formatClause (c.stretched text)).2 = (formatClause c).2.stretched text := by
  have hcolon := head?_withReturns (a := ':') (by decide) (by decide) c.ahead
  unfold formatClause
  by_cases hhead : c.ahead.head? = some ':'
  · have hinside := h.reaches (.advance c (one_le_of_head? hhead))
    rw [Cursor.stretched_ahead, if_pos hhead, if_pos (hcolon.mpr hhead),
      h.stretched_advance_one (by decide) hhead]
    dsimp only
    rw [Cursor.stretched_ahead, length_takeWhile_withReturns (by decide),
      hinside.stretched_advance]
  · rw [Cursor.stretched_ahead, if_neg hhead, if_neg (mt hcolon.mp hhead)]

/-- The hole is closed by as many braces at the place that its end moves to. -/
theorem closeHole_corresponds {start : Nat} {c : Cursor} (h : c.Within text) (braces : Nat)
    {expression expression' : Expr} {alignment alignment' : Option Expr}
    {format format' : Option TextRange}
    (hexpression : StringsReturned text expression.nodes expression'.nodes)
    (halignment : AlignmentReturned text alignment alignment') :
    Corresponds text (HoleReturned text) (closeHole braces start expression alignment format c)
      (closeHole braces (stretch text start) expression' alignment' format'
        (c.stretched text)) := by
  unfold closeHole
  rw [Cursor.stretched_ahead, runLength_withReturns (by decide) (by decide)]
  split
  · rfl
  · have hbraces := Nat.le_of_not_lt ‹_›
    rw [h.stretched_advance_run (by decide) hbraces, Cursor.stretched_offset,
      ← h.stretch_run_stop (by decide) hbraces]
    refine ⟨_, ⟨?_, ?_⟩, rfl⟩
    · exact .hole
    · exact List.rel_append hexpression halignment

/-! ## Runs -/

theorem ends_ne_of_not_blank {a : Char} (h : isBlank a = false) : a ≠ '\r' ∧ a ≠ '\n' := by
  constructor
  · rintro rfl
    exact absurd h (by decide)
  · rintro rfl
    exact absurd h (by decide)

theorem scanItems_advance_blank {budget : Nat} {stops : List Char} {c : Cursor} {b : Char}
    {rest : List Char} (hstops : ∀ s ∈ stops, isBlank s = false) (hb : isBlank b = true)
    (h : c.ahead = b :: rest) (hbudget : 2 * c.ahead.length + 1 ≤ budget) :
    scanItems budget stops (c.advance 1) = scanItems budget stops c := by
  have hnext : 2 * (c.advance 1).ahead.length + 1 ≤ budget := by
    rw [Cursor.advance_ahead, List.length_drop]
    omega
  rw [scanItems_eq_scan hbudget, Cursor.scan_of_blank hstops hb h, scanItems_eq_scan hnext]

theorem scanSegments_return {budget opened : Nat} {kind : StringKind} {pending c : Cursor}
    {rest : List Char} (h : c.ahead = '\r' :: rest) :
    scanSegments (budget + 1) kind opened pending c =
      scanSegments budget kind opened pending (c.advance 1) := by
  rw [scanSegments, h, StringPart.read_at_return]

theorem scanSegments_newline {budget opened : Nat} {kind : StringKind} {pending c : Cursor}
    {rest : List Char} (h : c.ahead = '\n' :: rest) :
    scanSegments (budget + 1) kind opened pending c =
      if kind = .regular then .error (.failed ⟨.unterminatedString, opened⟩)
      else scanSegments budget kind opened pending (c.advance 1) := by
  rw [scanSegments, h, StringPart.read_at_newline]
  by_cases hkind : kind = .regular
  · rw [if_pos hkind, if_pos hkind]
  · rw [if_neg hkind, if_neg hkind]

/-- What is read as items with the one budget corresponds to what is read with the other. -/
def ItemsCorrespond (text : List Char) (budget budget' : Nat) : Prop :=
  ∀ {stops : List Char} {c : Cursor}, c.Within text → (∀ s ∈ stops, isBlank s = false) →
    2 * (withReturns c.ahead).length + 1 ≤ budget' →
    Corresponds text (ItemsReturned text) (scanItems budget stops c)
      (scanItems budget' stops (c.stretched text))

def SegmentsCorrespond (text : List Char) (budget budget' : Nat) : Prop :=
  ∀ (kind : StringKind) (opened : Nat) {pending c : Cursor}, pending.Within text →
    pending.Reaches c → 2 * (withReturns c.ahead).length + 1 ≤ budget' →
    Corresponds text (SegmentsReturned text) (scanSegments budget kind opened pending c)
      (scanSegments budget' kind (stretch text opened) (pending.stretched text)
        (c.stretched text))

section
variable {budget budget' : Nat} {stops : List Char} {c : Cursor}
variable (hitems : ItemsCorrespond text budget budget') (hc : c.Within text)
variable (hstops : ∀ s ∈ stops, isBlank s = false)
variable (hb : 2 * (withReturns c.ahead).length ≤ budget')
include hitems hc hstops hb

theorem scanItems_returns_behind {n : Nat} (hn : 1 ≤ n ∧ n ≤ c.ahead.length) :
    Corresponds text (ItemsReturned text) (scanItems budget stops (c.advance n))
      (scanItems budget' stops ((c.stretched text).advance (stretch c.ahead n))) := by
  have := Cursor.length_withReturns_advance hn.2
  rw [hc.stretched_advance]
  exact hitems (hc.reaches (.advance c hn.2)) hstops (by omega)

theorem scanItems_returns_group {delimiter : Delimiter} {bracket close : Char}
    (hread : Lexeme.read stops c.lineStart c.ahead = .opening delimiter bracket close)
    (hread' : Lexeme.read stops c.lineStart (withReturns c.ahead) =
      .opening delimiter bracket close) :
    Corresponds text (ItemsReturned text) (scanItems (budget + 1) stops c)
      (scanItems (budget' + 1) stops (c.stretched text)) := by
  obtain ⟨hhead, hbracket⟩ := Cursor.fits_of_read hread
  have hclosing := bracket?_not_blank hbracket
  have hends := ends_ne_of_not_blank (hclosing close List.mem_cons_self)
  have hne : bracket ≠ '\n' := by
    rintro rfl
    cases hbracket
  have hone := one_le_of_head? hhead
  have hin := hc.reaches (.advance c hone)
  have hbudget : 2 * (withReturns (c.advance 1).ahead).length + 1 ≤ budget' := by
    have := Cursor.length_withReturns_advance hone
    omega
  rw [scanItems, scanItems, Cursor.stretched_lineStart, Cursor.stretched_ahead, hread, hread']
  dsimp only
  rw [hc.stretched_advance_one hne hhead]
  refine (hitems hin hclosing hbudget).bind ?_
  intro children inner children' hchildren hreturned
  have hinner := (itemsRun_of_scan budget hchildren).reaches
  have hwithin := hin.reaches hinner
  have hclose := head?_withReturns hends.1 hends.2 inner.ahead
  dsimp only
  rw [Cursor.stretched_ahead]
  by_cases hcloses : inner.ahead.head? = some close
  · have hstep := Cursor.Reaches.advance inner (one_le_of_head? hcloses)
    rw [if_pos hcloses, if_pos (hclose.mpr hcloses),
      hwithin.stretched_advance_one hends.2 hcloses]
    refine (hitems (hwithin.reaches hstep) hstops ?_).bind ?_
    · have := (hinner.trans hstep).returns_length_le
      exact Nat.le_trans (by omega) hbudget
    · intro items final items' _ hitems
      exact .ok (List.rel_append hreturned hitems)
  · rw [if_neg hcloses, if_neg (mt hclose.mp hcloses)]
    rfl

theorem scanItems_returns_string (hsegments : SegmentsCorrespond text budget budget')
    {kind : StringKind} {marker : Nat}
    (hread : Lexeme.read stops c.lineStart c.ahead = .string kind marker)
    (hread' : Lexeme.read stops c.lineStart (withReturns c.ahead) = .string kind marker) :
    Corresponds text (ItemsReturned text) (scanItems (budget + 1) stops c)
      (scanItems (budget' + 1) stops (c.stretched text)) := by
  have hopening := Cursor.fits_of_read hread
  have hmarker := marker_le hopening
  have henter := hc.reaches (.enter c hmarker.2)
  have hbudget : 2 * (withReturns (c.enter marker).ahead).length + 1 ≤ budget' := by
    have := Cursor.length_withReturns_advance hmarker.2
    have := hmarker.1
    rw [Cursor.enter_ahead]
    rw [Cursor.advance_ahead] at *
    omega
  rw [scanItems, scanItems, Cursor.stretched_lineStart, Cursor.stretched_ahead, hread, hread']
  dsimp only
  rw [hc.stretched_enter (stretch_marker hopening)]
  refine (hsegments kind c.offset henter (.refl _) hbudget).bind ?_
  intro segments inner segments' hsegments hreturned
  have hrun := segmentsRun_of_scan budget hsegments
  have hwithin := henter.reaches hrun.reaches
  have hquotes := (Cursor.fits_of_part hrun.closes).2
  have hstep := Cursor.reaches_run hquotes
  dsimp only
  rw [hwithin.stretched_advance_run (by decide) hquotes]
  refine (hitems (hwithin.reaches hstep) hstops ?_).bind ?_
  · have := (hrun.reaches.trans hstep).returns_length_le
    exact Nat.le_trans (by omega) hbudget
  · intro items final items' _ hitems
    refine .ok (List.rel_append (.cons ⟨rfl, rfl, ?_, ?_, hreturned.1⟩ hreturned.2) hitems)
    · rw [TextRange.stretched, hwithin.stretch_run_stop (by decide) hquotes]
      rfl
    · rfl

end

-- the induction is on the budget without returns; the other one has to last for the longer text
mutual

theorem scanItems_returns (hplain : PlainEnds text) : ∀ (budget : Nat) {budget' : Nat}
    {stops : List Char} {c : Cursor}, c.Within text → (∀ s ∈ stops, isBlank s = false) →
    2 * (withReturns c.ahead).length + 1 ≤ budget' →
    Corresponds text (ItemsReturned text) (scanItems budget stops c)
      (scanItems budget' stops (c.stretched text))
  | 0, _, _, _, _, _, _ => by
    rw [scanItems]
    trivial
  | budget + 1, budget', stops, c, hc, hstops, hb => by
    obtain ⟨budget', rfl, hleft⟩ := exists_budget hb
    have hitems : ItemsCorrespond text budget budget' := scanItems_returns hplain budget
    rcases Lexeme.read_withReturns c.lineStart (hc.plainEnds hplain) hstops with
      hsame | ⟨n, hread, hnewline, hmore⟩
    · cases hread : Lexeme.read stops c.lineStart c.ahead with
      | opening delimiter bracket close =>
        rw [hread] at hsame
        exact scanItems_returns_group hitems hc hstops hleft hread hsame
      | string kind marker =>
        rw [hread] at hsame
        exact scanItems_returns_string hitems hc hstops hleft (scanSegments_returns hplain budget)
          hread hsame
      | stop =>
        rw [scanItems, scanItems, Cursor.stretched_lineStart, Cursor.stretched_ahead, hsame, hread]
        exact .ok .nil
      | broken problem =>
        rw [scanItems, scanItems, Cursor.stretched_lineStart, Cursor.stretched_ahead, hsame, hread]
        rfl
      | trivia n =>
        rw [scanItems, scanItems, Cursor.stretched_lineStart, Cursor.stretched_ahead, hsame, hread]
        exact scanItems_returns_behind hitems hc hstops hleft (Cursor.fits_of_read hread)
      | literal n =>
        rw [scanItems, scanItems, Cursor.stretched_lineStart, Cursor.stretched_ahead, hsame, hread]
        refine (scanItems_returns_behind hitems hc hstops hleft (Cursor.fits_of_read hread)).bind ?_
        intro items final items' _ hitems
        exact .ok hitems
      | code n =>
        rw [scanItems, scanItems, Cursor.stretched_lineStart, Cursor.stretched_ahead, hsame, hread]
        refine (scanItems_returns_behind hitems hc hstops hleft (Cursor.fits_of_read hread)).bind ?_
        intro items final items' _ hitems
        exact .ok hitems
    · -- the return before the newline is gone with the comment, and would be skipped here
      have hn := Cursor.fits_of_read hread
      have hbudget : 2 * (withReturns (c.advance n).ahead).length + 1 ≤ budget' := by
        have := Cursor.length_withReturns_advance hn.2
        have := hn.1
        omega
      obtain ⟨rest, hrest⟩ := List.head?_eq_some_iff.mp hnewline
      have hreturn : ((c.advance n).stretched text).ahead = '\r' :: '\n' :: withReturns rest := by
        rw [Cursor.stretched_ahead, Cursor.advance_ahead, hrest, withReturns_newline]
      rw [scanItems, scanItems, Cursor.stretched_lineStart, Cursor.stretched_ahead, hread, hmore]
      dsimp only
      rw [← Cursor.advance_advance, hc.stretched_advance,
        scanItems_advance_blank hstops (by decide) hreturn hbudget]
      exact hitems (hc.reaches (.advance c hn.2)) hstops hbudget

theorem scanSegments_returns (hplain : PlainEnds text) : ∀ (budget : Nat) {budget' : Nat}
    (kind : StringKind) (opened : Nat) {pending c : Cursor}, pending.Within text →
    pending.Reaches c →
    2 * (withReturns c.ahead).length + 1 ≤ budget' →
    Corresponds text (SegmentsReturned text) (scanSegments budget kind opened pending c)
      (scanSegments budget' kind (stretch text opened) (pending.stretched text)
        (c.stretched text))
  | 0, _, _, _, _, _, _, _, _ => by
    rw [scanSegments]
    trivial
  | budget + 1, budget', kind, opened, pending, c, hpending, hc, hb => by
    obtain ⟨budget', rfl, hleft⟩ := exists_budget hb
    have hwithin := hpending.reaches hc
    by_cases hnewline : c.ahead.head? = some '\n'
    · obtain ⟨rest, hrest⟩ := List.head?_eq_some_iff.mp hnewline
      have hreaches := Cursor.Reaches.advance c (one_le_of_head? hnewline)
      have hstep : ((c.stretched text).advance 1).advance 1 = (c.advance 1).stretched text := by
        rw [Cursor.advance_advance, ← hwithin.stretched_advance, hrest, stretch_newline,
          stretch_zero]
      have hreturn : (c.stretched text).ahead = '\r' :: '\n' :: withReturns rest := by
        rw [Cursor.stretched_ahead, hrest, withReturns_newline]
      rw [hrest, withReturns_newline, List.length_cons, List.length_cons] at hleft
      obtain ⟨budget', rfl, hleft⟩ := exists_budget hleft
      -- the return is text on its own, and then the newline counts as it does without
      rw [scanSegments_newline hrest, scanSegments_return hreturn,
        scanSegments_newline (by rw [Cursor.advance_ahead, hreturn]; rfl), hstep]
      split
      · rfl
      · refine scanSegments_returns hplain budget kind opened hpending (hc.trans hreaches) ?_
        rw [Cursor.advance_ahead, hrest, List.drop_succ_cons, List.drop_zero]
        omega
    · rw [scanSegments, scanSegments, Cursor.stretched_ahead,
        StringPart.read_withReturns kind hnewline]
      cases hread : StringPart.read kind c.ahead with
      | broken => rfl
      | close =>
        refine .ok ⟨hpending.textBetween_returned hc, ?_⟩
        rw [nodesOf_textBetween, nodesOf_textBetween]
        exact .nil
      | text n =>
        have hfits := Cursor.fits_of_part hread
        have hreaches := Cursor.Reaches.advance c hfits.2
        have htext := StringPart.stretch_text (hwithin.plainEnds hplain) hnewline hread
        have hstep := hwithin.stretched_advance n
        rw [htext] at hstep
        dsimp only
        rw [hstep]
        refine scanSegments_returns hplain budget kind opened hpending (hc.trans hreaches) ?_
        have := Cursor.length_withReturns_advance hfits.2
        have := hfits.1
        omega
      | hole =>
        have hbraces := Cursor.fits_of_part hread
        refine (scanHole_returns hplain budget hwithin hbraces hleft).bind ?_
        intro hole after hole' hhole hreturned
        have hhole := holeRun_of_scan budget hhole
        have hreaches := hhole.reaches hbraces.2
        have hafter := hwithin.reaches hreaches
        refine (scanSegments_returns hplain budget kind opened hafter (.refl _) ?_).bind ?_
        · have := hreaches.returns_le
          have := hreaches.ahead_length
          have := hhole.advances hbraces
          omega
        · intro segments final segments' _ hsegments
          refine .ok ⟨?_, ?_⟩
          · exact List.rel_append (hpending.textBetween_returned hc) (.cons hreturned.1 hsegments.1)
          · rw [nodesOf_textBetween_append, nodesOf_textBetween_append, nodesOf_cons, nodesOf_cons]
            exact List.rel_append hreturned.2 hsegments.2

theorem scanHole_returns (hplain : PlainEnds text) : ∀ (budget : Nat) {budget' braces : Nat}
    {c : Cursor}, c.Within text → 1 ≤ braces ∧ braces ≤ runLength '\x7b' c.ahead →
    2 * (withReturns c.ahead).length ≤ budget' →
    Corresponds text (HoleReturned text) (scanHole budget braces c)
      (scanHole budget' braces (c.stretched text))
  | 0, _, _, _, _, _, _ => by
    rw [scanHole]
    trivial
  | budget + 1, budget', braces, c, hc, hbraces, hb => by
    have hrun := runLength_le '\x7b' c.ahead
    have hlength : c.ahead.length ≤ (withReturns c.ahead).length := by
      have := le_stretch (Nat.le_refl c.ahead.length)
      rwa [stretch, List.take_length] at this
    have hpos : 2 * (withReturns c.ahead).length - 1 + 1 ≤ budget' := by omega
    obtain ⟨budget', rfl, hb⟩ := exists_budget hpos
    have hreaches := Cursor.reaches_run hbraces.2
    have hinside := hc.reaches hreaches
    have hbudget : 2 * (withReturns (c.advance braces).ahead).length + 1 ≤ budget' := by
      have := hreaches.returns_le
      rw [Cursor.advance_offset] at this
      omega
    rw [scanHole_succ, scanHole_succ, hc.stretched_advance_run (by decide) hbraces.2]
    refine (scanItems_returns hplain budget hinside expressionStops_not_blank hbudget).bind ?_
    intro items c₁ items' hitems hreturned
    have hreaches₁ := (itemsRun_of_scan budget hitems).reaches
    have hc₁ := hinside.reaches hreaches₁
    have hbudget₁ : 2 * (withReturns c₁.ahead).length + 1 ≤ budget' := by
      have := hreaches₁.returns_length_le
      omega
    refine (scanAlignment_returns hplain budget hc₁ hbudget₁).bind ?_
    intro alignment c₂ alignment' halignment hreturned₂
    have hc₂ := hc₁.reaches (alignmentRun_of_scan budget halignment).reaches
    dsimp only
    rw [formatClause_stretched hc₂]
    refine closeHole_corresponds (hc₂.reaches (formatClause_reaches rfl)) braces ?_ hreturned₂
    rw [nodes_juxtapose, nodes_juxtapose]
    exact hreturned

theorem scanAlignment_returns (hplain : PlainEnds text) (budget : Nat) {budget' : Nat} {c : Cursor}
    (hc : c.Within text)
    (hb : 2 * (withReturns c.ahead).length + 1 ≤ budget') :
    Corresponds text (AlignmentReturned text) (scanAlignment budget c)
      (scanAlignment budget' (c.stretched text)) := by
  have hcomma := head?_withReturns (a := ',') (by decide) (by decide) c.ahead
  unfold scanAlignment
  rw [Cursor.stretched_ahead]
  by_cases hhead : c.ahead.head? = some ','
  · have hreaches := Cursor.Reaches.advance c (one_le_of_head? hhead)
    have hbudget : 2 * (withReturns (c.advance 1).ahead).length + 1 ≤ budget' := by
      have := hreaches.returns_length_le
      omega
    rw [if_pos hhead, if_pos (hcomma.mpr hhead), hc.stretched_advance_one (by decide) hhead]
    have hscan := scanItems_returns hplain budget (hc.reaches hreaches) alignmentStops_not_blank
      hbudget
    refine hscan.bind ?_
    intro items final items' _ hitems
    refine .ok (List.rel_append ?_ .nil)
    rw [nodes_juxtapose, nodes_juxtapose]
    exact hitems
  · rw [if_neg hhead, if_neg (mt hcomma.mp hhead)]
    exact .ok .nil

end

end

end InterpolationLint
