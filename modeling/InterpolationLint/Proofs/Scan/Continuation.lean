import InterpolationLint.Proofs.Scan.NextLine

/-!
# A scan that goes on

Items that were read up to some place are read in the same way when the text goes on in a further
line, and the scan then goes on from that place. Within brackets and strings, which are closed
before the further line begins, nothing changes at all.
-/

namespace InterpolationLint

def Cursor.extend (t : List Char) (c : Cursor) : Cursor :=
  { c with ahead := c.ahead ++ '\n' :: t }

namespace Cursor

variable (t : List Char)

@[simp] theorem extend_offset (c : Cursor) : (c.extend t).offset = c.offset := rfl
@[simp] theorem extend_ahead (c : Cursor) : (c.extend t).ahead = c.ahead ++ '\n' :: t := rfl
@[simp] theorem extend_lineStart (c : Cursor) : (c.extend t).lineStart = c.lineStart := rfl
@[simp] theorem extend_opened (c : Cursor) : (c.extend t).opened = c.opened := rfl

theorem extend_advance {c : Cursor} {n : Nat} (h : n ≤ c.ahead.length) :
    (c.extend t).advance n = (c.advance n).extend t := by
  simp [Cursor.advance, Cursor.extend, List.drop_append_of_le_length h,
    List.take_append_of_le_length h]

theorem extend_enter {c : Cursor} {n : Nat} (h : n ≤ c.ahead.length) :
    (c.extend t).enter n = (c.enter n).extend t := by
  unfold Cursor.enter
  rw [extend_advance t h]
  rfl

theorem extend_textBetween {pending c : Cursor} (h : pending.Reaches c) :
    textBetween (pending.extend t) (c.extend t) = textBetween pending c := by
  have hlength := h.ahead_length
  have htext : (pending.extend t).textUpTo (c.extend t) = pending.textUpTo c := by
    unfold Cursor.textUpTo
    simp only [extend_offset, extend_ahead]
    rw [List.take_append_of_le_length (by omega)]
  unfold textBetween
  rw [htext]
  rfl

/-! ## Lexemes -/

variable {stops : List Char} {c : Cursor}

theorem read_extend {lexeme : Lexeme} (hstops : ∀ s ∈ stops, isBlank s = false)
    (h : Lexeme.read stops c.lineStart c.ahead = lexeme) (hne : c.ahead ≠ [])
    (htrivia : ∀ n, lexeme ≠ .trivia n) (hbroken : ∀ problem, lexeme ≠ .broken problem) :
    Lexeme.read stops (c.extend t).lineStart (c.extend t).ahead = lexeme := by
  cases hahead : c.ahead with
  | nil => exact absurd hahead hne
  | cons d rest =>
    rw [hahead] at h
    have hblank : isBlank d = false := by
      rw [← Bool.not_eq_true]
      intro hd
      rw [Lexeme.read_blank hd hstops] at h
      exact htrivia _ h.symm
    simp only [extend_lineStart, extend_ahead, hahead]
    exact Lexeme.read_newline t h hblank hbroken

theorem scan_of_blanks (hstops : ∀ s ∈ stops, isBlank s = false) :
    ∀ {n : Nat} {c : Cursor}, n ≤ (c.ahead.takeWhile isBlank).length →
      c.scan stops = (c.advance n).scan stops
  | 0, c, _ => by rw [advance_zero]
  | n + 1, c, h => by
    cases hahead : c.ahead with
    | nil => simp [hahead] at h
    | cons b rest =>
      by_cases hb : isBlank b = true
      · have hrest : n ≤ ((c.advance 1).ahead.takeWhile isBlank).length := by
          simpa [hahead, hb] using h
        rw [scan_of_blank hstops hb hahead, scan_of_blanks hstops hrest, advance_advance,
          Nat.add_comm]
      · simp [hahead, hb] at h

/-- Trivia at the end of a text may be only the front of what is skipped when the text goes on. -/
theorem scan_extend_of_trivia {n : Nat} (hstops : ∀ s ∈ stops, isBlank s = false)
    (h : Lexeme.read stops c.lineStart c.ahead = .trivia n) :
    (c.extend t).scan stops = ((c.advance n).extend t).scan stops := by
  have hfits := fits_of_read h
  have hle : n ≤ c.ahead.length := hfits.2
  rw [← extend_advance t hle]
  cases hahead : c.ahead with
  | nil =>
    rw [hahead] at h
    cases h
  | cons d rest =>
    rw [hahead] at h
    -- only blanks run on into the further line: comments and directives end before the newline
    by_cases hd : isBlank d = true
    · rw [Lexeme.read_blank hd hstops] at h
      obtain rfl := Lexeme.trivia.inj h
      apply scan_of_blanks hstops
      have hmore : (rest.takeWhile isBlank).length ≤
          ((rest ++ '\n' :: t).takeWhile isBlank).length := by
        rw [List.takeWhile_append]
        split
        · rw [List.length_append]
          omega
        · exact Nat.le_refl _
      simpa [hahead, hd] using hmore
    · apply scan_of_trivia
      simp only [extend_lineStart, extend_ahead, hahead]
      exact Lexeme.read_newline t h (by simpa using hd) nofun

end Cursor

/-! ## Clauses of a hole -/

/-- A format clause before a closing brace ends there. -/
theorem formatClause_extend (t : List Char) {c final : Cursor} {format : Option TextRange}
    (h : formatClause c = (format, final)) (hne : final.ahead ≠ []) :
    formatClause (c.extend t) = (format, final.extend t) := by
  have hhead : (c.extend t).ahead.head? = some ':' ↔ c.ahead.head? = some ':' :=
    head?_newline t (by decide) c.ahead
  unfold formatClause at h ⊢
  by_cases hcolon : c.ahead.head? = some ':'
  · rw [if_pos hcolon] at h
    rw [if_pos (hhead.mpr hcolon), Cursor.extend_advance t (one_le_of_head? hcolon)]
    dsimp only at h ⊢
    obtain ⟨rfl, rfl⟩ := Prod.mk.inj h
    have hends : ((c.advance 1).ahead.takeWhile (· != '\x7d')).length ≠
        (c.advance 1).ahead.length := by
      intro hlength
      apply hne
      rw [Cursor.advance_ahead, hlength, List.drop_length]
    have hsame : ((c.advance 1).extend t).ahead.takeWhile (· != '\x7d') =
        (c.advance 1).ahead.takeWhile (· != '\x7d') := by
      rw [Cursor.extend_ahead, List.takeWhile_append, if_neg hends]
    rw [hsame, Cursor.extend_advance t (List.takeWhile_prefix _).length_le]
    rfl
  · rw [if_neg hcolon] at h
    rw [if_neg fun h' => hcolon (hhead.mp h')]
    cases h
    rfl

theorem expressionStops_not_blank : ∀ s ∈ expressionStops, isBlank s = false :=
  not_blank_of_all (by decide)

theorem alignmentStops_not_blank : ∀ s ∈ alignmentStops, isBlank s = false :=
  not_blank_of_all (by decide)

theorem bracket?_not_blank {bracket close : Char} {delimiter : Delimiter}
    (h : bracket? bracket = some (delimiter, close)) : ∀ s ∈ [close], isBlank s = false := by
  unfold bracket? at h
  split at h
  all_goals cases h
  all_goals exact not_blank_of_all (by decide)

/-! ## Runs -/

/-- Items that end before the text does are the same in the longer text. -/
theorem ItemsRun.extend_of_scan (t : List Char) {stops : List Char} {c final : Cursor}
    {items : List Expr} (h : ItemsRun stops c items final)
    (hstops : ∀ s ∈ stops, isBlank s = false) (hne : final.ahead ≠ [])
    (hscan : (c.extend t).scan stops = prepend items ((final.extend t).scan stops)) :
    ItemsRun stops (c.extend t) items (final.extend t) := by
  have hstop := Cursor.read_extend t hstops h.stops hne nofun nofun
  rw [← Cursor.scan_eq_ok_iff, hscan, Cursor.scan_of_stop hstop, prepend, List.append_nil]

mutual

theorem ItemsRun.scan_extend (t : List Char) {stops : List Char} {c final : Cursor}
    {items : List Expr} (h : ItemsRun stops c items final)
    (hstops : ∀ s ∈ stops, isBlank s = false) :
    (c.extend t).scan stops = prepend items ((final.extend t).scan stops) := by
  have hread : ∀ {lexeme}, Lexeme.read stops c.lineStart c.ahead = lexeme → lexeme ≠ .stop →
      (∀ n, lexeme ≠ .trivia n) → (∀ problem, lexeme ≠ .broken problem) →
      Lexeme.read stops (c.extend t).lineStart (c.extend t).ahead = lexeme := by
    intro lexeme hread hstop
    refine Cursor.read_extend t hstops hread fun hnil => ?_
    rw [hnil] at hread
    exact hstop hread.symm
  match h with
  | .stop _ => rw [prepend_nil]
  | .trivia htrivia h =>
    rw [Cursor.scan_extend_of_trivia t hstops htrivia]
    exact h.scan_extend t hstops
  | .literal hliteral h =>
    have hle := (Cursor.fits_of_read hliteral).2
    rw [Cursor.scan_of_literal (hread hliteral nofun nofun nofun), Cursor.extend_advance t hle,
      h.scan_extend t hstops, prepend_prepend]
    rfl
  | .code hcode h =>
    have hle := (Cursor.fits_of_read hcode).2
    rw [Cursor.scan_of_code (hread hcode nofun nofun nofun), Cursor.extend_advance t hle,
      h.scan_extend t hstops, prepend_prepend]
    rfl
  | @ItemsRun.group _ _ _ _ close children inner _ _ hopening hchildren hclose h =>
    have hle : 1 ≤ c.ahead.length := (Cursor.fits_of_read hopening).length_le
    have hne : inner.ahead ≠ [] := by
      intro hnil
      rw [hnil] at hclose
      cases hclose
    have hinside := bracket?_not_blank (Cursor.fits_of_read hopening).2
    have hchildren' := hchildren.extend_of_scan t hinside hne (hchildren.scan_extend t hinside)
    rw [← Cursor.extend_advance t hle] at hchildren'
    have hclose' : (inner.extend t).ahead.head? = some close := by
      rw [Cursor.extend_ahead, List.head?_append, hclose]
      rfl
    rw [Cursor.scan_of_group (hread hopening nofun nofun nofun) hchildren' hclose',
      Cursor.extend_advance t (one_le_of_head? hclose), h.scan_extend t hstops, prepend_prepend]
    rfl
  | @ItemsRun.string _ _ kind marker segments inner _ _ hstring hsegments h =>
    have hmarker := (marker_le (Cursor.fits_of_read hstring)).2
    have hquotes := (Cursor.fits_of_part hsegments.closes).2
    have hsegments' := hsegments.extend t (.refl _)
    rw [← Cursor.extend_enter t hmarker] at hsegments'
    rw [Cursor.scan_of_string (hread hstring nofun nofun nofun) hsegments',
      Cursor.extend_advance t (Nat.le_trans hquotes (runLength_le _ _)), h.scan_extend t hstops,
      prepend_prepend]
    rfl

theorem SegmentsRun.extend (t : List Char) {kind : StringKind} {pending c final : Cursor}
    {segments : List Segment} (h : SegmentsRun kind pending c segments final)
    (hpending : pending.Reaches c) :
    SegmentsRun kind (pending.extend t) (c.extend t) segments (final.extend t) := by
  match h with
  | .close hread =>
    rw [← Cursor.extend_textBetween t hpending]
    exact .close (StringPart.read_newline t hread nofun)
  | .text hread h =>
    have hle := (Cursor.fits_of_part hread).2
    have h' := h.extend t (hpending.trans (.advance c hle))
    rw [← Cursor.extend_advance t hle] at h'
    exact .text (StringPart.read_newline t hread nofun) h'
  | .hole hread hhole h =>
    rw [← Cursor.extend_textBetween t hpending]
    exact .hole (StringPart.read_newline t hread nofun)
      (hhole.extend t (Cursor.fits_of_part hread)) (h.extend t (.refl _))

theorem HoleRun.extend (t : List Char) {braces : Nat} {c final : Cursor} {hole : Segment}
    (h : HoleRun braces c hole final) (hbraces : 1 ≤ braces ∧ braces ≤ runLength '\x7b' c.ahead) :
    HoleRun braces (c.extend t) hole (final.extend t) := by
  match h with
  | @HoleRun.closed _ _ items c₁ _ c₂ _ c₃ hitems halignment hformat hclose =>
    have hle := Nat.le_trans hbraces.2 (runLength_le _ _)
    have hclose' := Nat.le_trans hclose (runLength_le _ _)
    have hne₃ : c₃.ahead ≠ [] := by
      intro hnil
      rw [hnil] at hclose'
      exact absurd (Nat.le_trans hbraces.1 hclose') (by decide)
    -- the closing braces stand behind both clauses, so neither of them goes on to the further line
    have hne₂ : c₂.ahead ≠ [] := Cursor.Reaches.ahead_ne_nil (formatClause_reaches hformat) hne₃
    have hne₁ : c₁.ahead ≠ [] := halignment.reaches.ahead_ne_nil hne₂
    have hitems' := hitems.extend_of_scan t expressionStops_not_blank hne₁
      (hitems.scan_extend t expressionStops_not_blank)
    rw [← Cursor.extend_advance t hle] at hitems'
    rw [← Cursor.extend_advance t hclose']
    refine .closed hitems' (halignment.extend t hne₂) (formatClause_extend t hformat hne₃) ?_
    rw [Cursor.extend_ahead, runLength_newline t (by decide)]
    exact hclose

theorem AlignmentRun.extend (t : List Char) {c final : Cursor} {alignment : Option Expr}
    (h : AlignmentRun c alignment final) (hne : final.ahead ≠ []) :
    AlignmentRun (c.extend t) alignment (final.extend t) := by
  have hhead := head?_newline t (by decide : ',' ≠ '\n') c.ahead
  match h with
  | .absent hcomma => exact .absent fun h' => hcomma (hhead.mp h')
  | .present hcomma h =>
    have h' := h.extend_of_scan t alignmentStops_not_blank hne
      (h.scan_extend t alignmentStops_not_blank)
    rw [← Cursor.extend_advance t (one_le_of_head? hcomma)] at h'
    exact .present (hhead.mpr hcomma) h'

end

end InterpolationLint
