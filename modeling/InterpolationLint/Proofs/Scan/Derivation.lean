import InterpolationLint.Scan.Items
import InterpolationLint.Proofs.Except
import InterpolationLint.Proofs.Scan.Cursor
import InterpolationLint.Proofs.Scan.Lexeme

/-!
# Runs of the scanner

A run that found its end, as a derivation without a budget: one constructor for each kind of lexeme,
and one for each part of a string. What holds of all scanned trees is proved by induction over these
derivations. `itemsRun_of_scan` gives the derivation behind an answer of the scanner, and
`ItemsRun.scan_eq` the answer behind a derivation.
-/

namespace InterpolationLint

mutual

inductive ItemsRun : List Char → Cursor → List Expr → Cursor → Prop
  | stop {stops c} : Lexeme.read stops c.lineStart c.ahead = .stop → ItemsRun stops c [] c
  | trivia {stops c length items final} :
      Lexeme.read stops c.lineStart c.ahead = .trivia length →
      ItemsRun stops (c.advance length) items final → ItemsRun stops c items final
  | literal {stops c length items final} :
      Lexeme.read stops c.lineStart c.ahead = .literal length →
      ItemsRun stops (c.advance length) items final →
      ItemsRun stops c (.literal (c.span length) :: items) final
  | code {stops c length items final} :
      Lexeme.read stops c.lineStart c.ahead = .code length →
      ItemsRun stops (c.advance length) items final →
      ItemsRun stops c (.code (c.span length) :: items) final
  | group {stops c delimiter bracket close children inner items final} :
      Lexeme.read stops c.lineStart c.ahead = .opening delimiter bracket close →
      ItemsRun [close] (c.advance 1) children inner → inner.ahead.head? = some close →
      ItemsRun stops (inner.advance 1) items final →
      ItemsRun stops c (.group delimiter ⟨c.offset, inner.offset + 1⟩ children :: items) final
  | string {stops c kind marker segments inner items final} :
      Lexeme.read stops c.lineStart c.ahead = .string kind marker →
      SegmentsRun kind (c.enter marker) (c.enter marker) segments inner →
      ItemsRun stops (inner.advance kind.quotes) items final →
      ItemsRun stops c (.interpolated ⟨c.opened, kind, ⟨c.offset, inner.offset + kind.quotes⟩,
        ⟨c.offset + marker, inner.offset⟩, segments⟩ :: items) final

/-- Segments read up to the closing quotes, with text pending since an earlier place. -/
inductive SegmentsRun : StringKind → Cursor → Cursor → List Segment → Cursor → Prop
  | close {kind pending c} : StringPart.read kind c.ahead = .close →
      SegmentsRun kind pending c (textBetween pending c) c
  | text {kind pending c length segments final} : StringPart.read kind c.ahead = .text length →
      SegmentsRun kind pending (c.advance length) segments final →
      SegmentsRun kind pending c segments final
  | hole {kind pending c hole after segments final} : StringPart.read kind c.ahead = .hole →
      HoleRun kind.braces c hole after → SegmentsRun kind after after segments final →
      SegmentsRun kind pending c (textBetween pending c ++ hole :: segments) final

inductive HoleRun : Nat → Cursor → Segment → Cursor → Prop
  | closed {braces c items c₁ alignment c₂ format c₃} :
      ItemsRun expressionStops (c.advance braces) items c₁ → AlignmentRun c₁ alignment c₂ →
      formatClause c₂ = (format, c₃) → braces ≤ runLength '\x7d' c₃.ahead →
      HoleRun braces c
        (.hole ⟨c.offset, c₃.offset + braces⟩ (juxtapose items c₁.offset) alignment format)
        (c₃.advance braces)

inductive AlignmentRun : Cursor → Option Expr → Cursor → Prop
  | absent {c} : c.ahead.head? ≠ some ',' → AlignmentRun c none c
  | present {c items c'} : c.ahead.head? = some ',' →
      ItemsRun alignmentStops (c.advance 1) items c' →
      AlignmentRun c (some (juxtapose items c'.offset)) c'

end

/-! ## Runs move forward -/

theorem one_le_of_head? {cs : List Char} {a : Char} (h : cs.head? = some a) : 1 ≤ cs.length := by
  obtain ⟨rest, rfl⟩ := List.head?_eq_some_iff.mp h
  exact Nat.succ_le_succ (Nat.zero_le _)

def Lexeme.length : Lexeme → Nat
  | .trivia length | .literal length | .code length => length
  | .opening _ _ _ => 1
  | .string _ marker => marker
  | .stop | .broken _ => 0

theorem Lexeme.Fits.length_le {cs : List Char} {lexeme : Lexeme} (h : lexeme.Fits cs) :
    lexeme.length ≤ cs.length := by
  cases lexeme with
  | stop => exact Nat.zero_le _
  | broken => exact Nat.zero_le _
  | trivia => exact h.2
  | literal => exact h.2
  | code => exact h.2
  | opening => exact one_le_of_head? h.1
  | string => exact (marker_le h).2

theorem Cursor.fits_of_read {stops : List Char} {c : Cursor} {lexeme : Lexeme}
    (h : Lexeme.read stops c.lineStart c.ahead = lexeme) : lexeme.Fits c.ahead :=
  h ▸ Lexeme.fits_read stops c.lineStart c.ahead

theorem Cursor.reaches_of_read {stops : List Char} {c : Cursor} {lexeme : Lexeme}
    (h : Lexeme.read stops c.lineStart c.ahead = lexeme) : c.Reaches (c.advance lexeme.length) :=
  .advance c (fits_of_read h).length_le

theorem Cursor.fits_of_part {kind : StringKind} {c : Cursor} {part : StringPart}
    (h : StringPart.read kind c.ahead = part) : part.Fits kind c.ahead :=
  h ▸ StringPart.fits_read kind c.ahead

theorem Cursor.reaches_run {c : Cursor} {n : Nat} {a : Char} (h : n ≤ runLength a c.ahead) :
    c.Reaches (c.advance n) :=
  .advance c (Nat.le_trans h (runLength_le a c.ahead))

theorem formatClause_reaches {c final : Cursor} {format : Option TextRange}
    (h : formatClause c = (format, final)) : c.Reaches final := by
  obtain rfl : (formatClause c).2 = final := by rw [h]
  unfold formatClause
  split
  · refine (Cursor.Reaches.advance c (one_le_of_head? ‹_›)).trans ?_
    exact .advance _ (List.takeWhile_prefix _).length_le
  · exact .refl c

theorem ItemsRun.stops {stops : List Char} {c final : Cursor} {items : List Expr}
    (h : ItemsRun stops c items final) :
    Lexeme.read stops final.lineStart final.ahead = .stop := by
  match h with
  | .stop hread => exact hread
  | .trivia _ h => exact h.stops
  | .literal _ h => exact h.stops
  | .code _ h => exact h.stops
  | .group _ _ _ h => exact h.stops
  | .string _ _ h => exact h.stops

/-- The place where a string's segments end has its closing quotes ahead. -/
theorem SegmentsRun.closes {kind : StringKind} {pending c final : Cursor}
    {segments : List Segment} (h : SegmentsRun kind pending c segments final) :
    StringPart.read kind final.ahead = .close := by
  match h with
  | .close hread => exact hread
  | .text _ h => exact h.closes
  | .hole _ _ h => exact h.closes

mutual

theorem ItemsRun.reaches {stops : List Char} {c final : Cursor} {items : List Expr}
    (h : ItemsRun stops c items final) : c.Reaches final := by
  match h with
  | .stop _ => exact .refl c
  | .trivia hread h => exact (Cursor.reaches_of_read hread).trans h.reaches
  | .literal hread h => exact (Cursor.reaches_of_read hread).trans h.reaches
  | .code hread h => exact (Cursor.reaches_of_read hread).trans h.reaches
  | .group hread hchildren hclose h =>
    have hinner := (Cursor.reaches_of_read hread).trans hchildren.reaches
    exact hinner.trans ((Cursor.Reaches.advance _ (one_le_of_head? hclose)).trans h.reaches)
  | .string hread hsegments h =>
    have hmarker := Cursor.Reaches.enter c (marker_le (Cursor.fits_of_read hread)).2
    have hquotes := Cursor.reaches_run (Cursor.fits_of_part hsegments.closes).2
    exact (hmarker.trans hsegments.reaches).trans (hquotes.trans h.reaches)

theorem SegmentsRun.reaches {kind : StringKind} {pending c final : Cursor}
    {segments : List Segment} (h : SegmentsRun kind pending c segments final) :
    c.Reaches final := by
  match h with
  | .close _ => exact .refl c
  | .text hread h =>
    exact (Cursor.Reaches.advance c (Cursor.fits_of_part hread).2).trans h.reaches
  | .hole hread hhole h =>
    exact (hhole.reaches (Cursor.fits_of_part hread).2).trans h.reaches

theorem HoleRun.reaches {braces : Nat} {c final : Cursor} {hole : Segment}
    (h : HoleRun braces c hole final) (hbraces : braces ≤ runLength '\x7b' c.ahead) :
    c.Reaches final := by
  match h with
  | .closed hitems halignment hformat hclose =>
    have hexpression := (Cursor.reaches_run hbraces).trans hitems.reaches
    have hclauses := halignment.reaches.trans (formatClause_reaches hformat)
    exact hexpression.trans (hclauses.trans (Cursor.reaches_run hclose))

theorem AlignmentRun.reaches {c final : Cursor} {alignment : Option Expr}
    (h : AlignmentRun c alignment final) : c.Reaches final := by
  match h with
  | .absent _ => exact .refl c
  | .present hcomma h =>
    exact (Cursor.Reaches.advance c (one_le_of_head? hcomma)).trans h.reaches

end

/-- A hole takes its braces at least. -/
theorem HoleRun.advances {braces : Nat} {c final : Cursor} {hole : Segment}
    (h : HoleRun braces c hole final) (hbraces : 1 ≤ braces ∧ braces ≤ runLength '\x7b' c.ahead) :
    final.ahead.length < c.ahead.length := by
  match h with
  | @HoleRun.closed _ _ _ _ _ _ _ c₃ hitems halignment hformat hclose =>
    have hclauses := halignment.reaches.trans (formatClause_reaches hformat)
    have := (hitems.reaches.trans hclauses).ahead_length_le
    have := runLength_le '\x7d' c₃.ahead
    have := runLength_le '\x7b' c.ahead
    simp only [Cursor.advance_ahead, List.length_drop] at *
    omega

/-! ## Answers of the scanner are runs -/

def scanAlignment (budget : Nat) (c : Cursor) : Except Halt (Option Expr × Cursor) :=
  if c.ahead.head? = some ',' then
    scanItems budget alignmentStops (c.advance 1) >>= fun r =>
      .ok (some (juxtapose r.1 r.2.offset), r.2)
  else .ok (none, c)

def closeHole (braces start : Nat) (expression : Expr) (alignment : Option Expr)
    (format : Option TextRange) (c : Cursor) : Except Halt (Segment × Cursor) :=
  if runLength '\x7d' c.ahead < braces then .error (.failed ⟨.unterminatedHole, start⟩)
  else .ok (.hole ⟨start, c.offset + braces⟩ expression alignment format, c.advance braces)

theorem scanHole_succ (budget braces : Nat) (c : Cursor) :
    scanHole (budget + 1) braces c =
      scanItems budget expressionStops (c.advance braces) >>= fun r =>
        scanAlignment budget r.2 >>= fun a =>
          closeHole braces c.offset (juxtapose r.1 r.2.offset) a.1 (formatClause a.2).1
            (formatClause a.2).2 := by
  rw [scanHole]
  cases scanItems budget expressionStops (c.advance braces) with
  | error halt => rfl
  | ok r =>
    simp only [bind, Except.bind, pure, Except.pure, scanAlignment, closeHole]
    split
    · cases scanItems budget alignmentStops (r.2.advance 1) <;> rfl
    · rfl

mutual

theorem itemsRun_of_scan : ∀ (budget : Nat) {stops : List Char} {c final : Cursor}
    {items : List Expr}, scanItems budget stops c = .ok (items, final) →
      ItemsRun stops c items final
  | 0, _, _, _, _, h => by simp [scanItems] at h
  | budget + 1, stops, c, final, items, h => by
    rw [scanItems] at h
    split at h
    · cases h
      exact .stop ‹_›
    · cases h
    · exact .trivia ‹_› (itemsRun_of_scan budget h)
    · obtain ⟨⟨rest, final'⟩, hrest, h⟩ := bind_eq_ok h
      cases h
      exact .literal ‹_› (itemsRun_of_scan budget hrest)
    · obtain ⟨⟨rest, final'⟩, hrest, h⟩ := bind_eq_ok h
      cases h
      exact .code ‹_› (itemsRun_of_scan budget hrest)
    · obtain ⟨⟨children, inner⟩, hchildren, h⟩ := bind_eq_ok h
      dsimp only at h
      split at h
      · obtain ⟨⟨rest, final'⟩, hrest, h⟩ := bind_eq_ok h
        cases h
        exact .group ‹_› (itemsRun_of_scan budget hchildren) ‹_› (itemsRun_of_scan budget hrest)
      · cases h
    · obtain ⟨⟨segments, inner⟩, hsegments, h⟩ := bind_eq_ok h
      obtain ⟨⟨rest, final'⟩, hrest, h⟩ := bind_eq_ok h
      cases h
      exact .string ‹_› (segmentsRun_of_scan budget hsegments) (itemsRun_of_scan budget hrest)

theorem segmentsRun_of_scan : ∀ (budget : Nat) {kind : StringKind} {opened : Nat}
    {pending c final : Cursor} {segments : List Segment},
    scanSegments budget kind opened pending c = .ok (segments, final) →
      SegmentsRun kind pending c segments final
  | 0, _, _, _, _, _, _, h => by simp [scanSegments] at h
  | budget + 1, kind, opened, pending, c, final, segments, h => by
    rw [scanSegments] at h
    split at h
    · cases h
    · cases h
      exact .close ‹_›
    · exact .text ‹_› (segmentsRun_of_scan budget h)
    · obtain ⟨⟨hole, after⟩, hhole, h⟩ := bind_eq_ok h
      obtain ⟨⟨rest, final'⟩, hrest, h⟩ := bind_eq_ok h
      cases h
      exact .hole ‹_› (holeRun_of_scan budget hhole) (segmentsRun_of_scan budget hrest)

theorem holeRun_of_scan : ∀ (budget : Nat) {braces : Nat} {c final : Cursor} {hole : Segment},
    scanHole budget braces c = .ok (hole, final) → HoleRun braces c hole final
  | 0, _, _, _, _, h => by simp [scanHole] at h
  | budget + 1, braces, c, final, hole, h => by
    rw [scanHole_succ] at h
    obtain ⟨⟨items, c₁⟩, hitems, h⟩ := bind_eq_ok h
    obtain ⟨⟨alignment, c₂⟩, halignment, h⟩ := bind_eq_ok h
    have halignment := alignmentRun_of_scan budget halignment
    unfold closeHole at h
    split at h
    · cases h
    · cases h
      exact .closed (itemsRun_of_scan budget hitems) halignment rfl (Nat.le_of_not_lt ‹_›)

theorem alignmentRun_of_scan (budget : Nat) {c final : Cursor} {alignment : Option Expr}
    (h : scanAlignment budget c = .ok (alignment, final)) : AlignmentRun c alignment final := by
  unfold scanAlignment at h
  split at h
  · obtain ⟨⟨items, final'⟩, hitems, h⟩ := bind_eq_ok h
    cases h
    exact .present ‹_› (itemsRun_of_scan budget hitems)
  · cases h
    exact .absent ‹_›

end

end InterpolationLint
