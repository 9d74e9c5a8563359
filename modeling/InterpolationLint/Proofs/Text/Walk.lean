import InterpolationLint.Proofs.Text.Location
import Mathlib.Data.List.Induction

/-!
# Positions by walking a text

The position of an offset is the one reached by walking the characters before it: a newline leads
to the front of the next line and any other character to the next column. So positions come in the
order of offsets, and the characters at a position of the text are those at its offset.
-/

namespace InterpolationLint

namespace Position

def next (p : Position) (c : Char) : Position :=
  if c = '\n' then ⟨p.line + 1, 1⟩ else ⟨p.line, p.column + 1⟩

def behind (before : List Char) : Position := before.foldl next ⟨1, 1⟩

def Before (p q : Position) : Prop := p.line < q.line ∨ p.line = q.line ∧ p.column < q.column

theorem eq_iff {p q : Position} : p = q ↔ p.line = q.line ∧ p.column = q.column := by
  cases p
  cases q
  simp

theorem behind_concat (before : List Char) (c : Char) :
    behind (before ++ [c]) = (behind before).next c := by
  simp [behind, List.foldl_append]

theorem before_next (p : Position) (c : Char) : p.Before (p.next c) := by
  unfold Before next
  by_cases hc : c = '\n' <;> simp [hc]

theorem Before.trans {p q r : Position} (h : p.Before q) (h' : q.Before r) : p.Before r := by
  unfold Before at *
  omega

theorem Before.ne {p q : Position} (h : p.Before q) : p ≠ q := by
  rintro rfl
  unfold Before at h
  omega

theorem behind_before_behind {before more : List Char} (h : more ≠ []) :
    (behind before).Before (behind (before ++ more)) := by
  induction more using List.reverseRecOn with
  | nil => exact absurd rfl h
  | append_singleton more c ih =>
    rw [← List.append_assoc, behind_concat]
    by_cases hmore : more = []
    · subst hmore
      simpa using before_next (behind before) c
    · exact (ih hmore).trans (before_next _ c)

theorem behind_append_of_line (before : List Char) {xs : List Char} (h : '\n' ∉ xs) :
    behind (before ++ xs) = ⟨(behind before).line, (behind before).column + xs.length⟩ := by
  induction xs using List.reverseRecOn with
  | nil => simp
  | append_singleton xs c ih =>
    have hc : c ≠ '\n' := by
      rintro rfl
      simp at h
    rw [← List.append_assoc, behind_concat, ih (by simp_all)]
    simp [next, hc, Nat.add_assoc]

theorem behind_line (before : List Char) : (behind before).line = before.count '\n' + 1 := by
  induction before using List.reverseRecOn with
  | nil => rfl
  | append_singleton before c ih =>
    rw [behind_concat, List.count_append]
    by_cases hc : c = '\n' <;> simp [next, hc, ih]

end Position

/-! ## Offsets -/

namespace LineIndex

theorem lt_of_mem_startsFrom {offset start : Nat} {cs : List Char}
    (h : start ∈ startsFrom offset cs) : offset < start := by
  fun_induction startsFrom offset cs with
  | case1 => simp at h
  | case2 offset rest ih =>
    rcases List.mem_cons.mp h with rfl | h
    · exact Nat.lt_succ_self _
    · exact Nat.lt_of_succ_lt (ih h)
  | case3 offset c rest hc ih => exact Nat.lt_of_succ_lt (ih h)

theorem startsFrom_singleton (offset : Nat) (c : Char) :
    startsFrom offset [c] = if c = '\n' then [offset + 1] else [] := by
  by_cases hc : c = '\n'
  · subst hc
    simp [startsFrom]
  · simp [startsFrom, hc]

/-- Walking counts the lines that start, and the columns from the last start on. -/
theorem behind_eq (first : Nat) (before : List Char) :
    Position.behind before = ⟨(startsFrom first before).length + 1,
      first + before.length - (startsFrom first before).getLastD first + 1⟩ := by
  induction before using List.reverseRecOn with
  | nil => simp [Position.behind, startsFrom]
  | append_singleton before c ih =>
    have hlast : (startsFrom first before).getLastD first ≤ first + before.length := by
      cases hs : (startsFrom first before).getLast? with
      | none => simp [List.getLastD_eq_getLast?, hs]
      | some last =>
        rw [List.getLastD_eq_getLast?, hs]
        exact startsFrom_le first before last (List.mem_of_getLast? hs)
    rw [Position.behind_concat, ih, startsFrom_append, startsFrom_singleton]
    by_cases hc : c = '\n'
    · simp [Position.next, hc, Nat.add_assoc]
    · simp only [Position.next, hc, if_false, List.append_nil, List.length_append,
        List.length_singleton]
      rw [← Nat.add_assoc, Nat.succ_sub hlast]

theorem startsFrom_take_mark (text : List Char) :
    startsFrom 0 (text.take (markLength text)) = [] := by
  cases text with
  | nil => rfl
  | cons c text =>
    by_cases hc : c = byteOrderMark
    · subst hc
      rfl
    · simp [markLength, hc, startsFrom]

theorem getD_getLast (first : Nat) (starts more : List Nat) :
    (first :: starts ++ more).getD starts.length 0 = starts.getLastD first := by
  induction starts generalizing first with
  | nil => simp
  | cons start starts ih =>
    rw [List.getLastD_cons, ← ih start]
    simp

theorem place_eq_behind {text before after : List Char}
    (h : text.drop (markLength text) = before ++ after) :
    (ofChars text).place (markLength text + before.length) = Position.behind before := by
  have htext : text = text.take (markLength text) ++ (before ++ after) := by
    rw [← h, List.take_append_drop]
  have hmark : (text.take (markLength text)).length = markLength text := by
    rw [List.length_take, Nat.min_eq_left (markLength_le text)]
  -- lines start in the part before the offset, and behind it later ones
  have hstarts : (ofChars text).starts = markLength text :: startsFrom (markLength text) before ++
      startsFrom (markLength text + before.length) after := by
    show markLength text :: startsFrom 0 text = _
    have hsplit := startsFrom_append 0 (text.take (markLength text)) (before ++ after)
    rw [← htext, startsFrom_take_mark, hmark, Nat.zero_add, List.nil_append,
      startsFrom_append] at hsplit
    rw [hsplit, List.cons_append]
  have hreached : (ofChars text).starts.takeWhile (· ≤ markLength text + before.length) =
      markLength text :: startsFrom (markLength text) before := by
    rw [hstarts, List.takeWhile_append_of_pos]
    · have hlate : (startsFrom (markLength text + before.length) after).takeWhile
          (· ≤ markLength text + before.length) = [] := by
        cases hs : startsFrom (markLength text + before.length) after with
        | nil => rfl
        | cons start starts =>
          have := lt_of_mem_startsFrom (hs ▸ List.mem_cons_self)
          rw [List.takeWhile_cons_of_neg]
          simpa using this
      rw [hlate, List.append_nil]
    · intro start hstart
      rcases List.mem_cons.mp hstart with rfl | hstart
      · simp
      · simpa using startsFrom_le _ _ start hstart
  rw [behind_eq (markLength text)]
  unfold place
  rw [hreached, hstarts, List.length_cons, Nat.add_sub_cancel]
  dsimp only
  rw [getD_getLast]

theorem place_eq_behind_take {text : List Char} {offset : Nat} (hmark : markLength text ≤ offset)
    (hle : offset ≤ text.length) : (ofChars text).place offset =
      Position.behind ((text.drop (markLength text)).take (offset - markLength text)) := by
  rw [← place_eq_behind (List.take_append_drop (offset - markLength text) _).symm]
  congr 1
  rw [List.length_take, List.length_drop]
  omega

/-- Positions come in the order of offsets. -/
theorem place_before_place {text : List Char} {a b : Nat} (ha : markLength text ≤ a) (hab : a < b)
    (hb : b ≤ text.length) : ((ofChars text).place a).Before ((ofChars text).place b) := by
  rw [place_eq_behind_take ha (by omega), place_eq_behind_take (by omega) hb,
    show b - markLength text = (a - markLength text) + (b - a) by omega, List.take_add]
  apply Position.behind_before_behind
  intro hnil
  have := congrArg List.length hnil
  simp only [List.length_take, List.length_drop, List.length_nil] at this
  omega

/-- The line of an offset is the number of newlines before it, counted from one. -/
theorem line_place {text : List Char} {offset : Nat} (hle : offset ≤ text.length) :
    ((ofChars text).place offset).line = (text.take offset).count '\n' + 1 := by
  have hnone : (text.take (markLength text)).count '\n' = 0 := by
    cases text with
    | nil => rfl
    | cons c text =>
      by_cases hc : c = byteOrderMark
      · subst hc
        rfl
      · simp [markLength, hc]
  by_cases hmark : markLength text ≤ offset
  · rw [place_eq_behind_take hmark hle, Position.behind_line,
      show offset = markLength text + (offset - markLength text) by omega, List.take_add,
      List.count_append, hnone, Nat.add_sub_cancel_left, Nat.zero_add]
  · -- only the mark itself is left, which no line start precedes
    have hzero : offset = 0 := by
      cases text with
      | nil => simp [markLength] at hmark
      | cons c text =>
        rw [markLength] at hmark
        split at hmark <;> omega
    subst hzero
    have hlate : (ofChars text).starts.takeWhile (· ≤ 0) = [] := by
      simp only [ofChars]
      rw [List.takeWhile_cons_of_neg (by simpa using hmark)]
    simp only [place, hlate, List.length_nil, List.take_zero, List.count_nil]

end LineIndex

/-! ## Characters at a position -/

/-- What stands on the line of a position from its column on. A byte order mark is on no line. -/
def Position.ahead (text : List Char) (p : Position) : List Char :=
  (((text.drop (LineIndex.markLength text)).splitOn '\n').getD (p.line - 1) []).drop (p.column - 1)

def Location.read (text : List Char) (l : Location) : List Char :=
  (l.start.ahead text).take (l.stop.column - l.start.column)

theorem splitOn_newline_cons (c : Char) (cs : List Char) : (c :: cs).splitOn '\n' =
    if c = '\n' then [] :: cs.splitOn '\n' else (cs.splitOn '\n').modifyHead (c :: ·) := by
  simp [List.splitOn, List.splitOnP_cons_eq_if_modifyHead]

theorem splitOn_newline_head (cs : List Char) :
    ∃ lines, cs.splitOn '\n' = cs.takeWhile (· != '\n') :: lines := by
  induction cs with
  | nil => exact ⟨[], by simp [List.splitOn]⟩
  | cons c cs ih =>
    obtain ⟨lines, hlines⟩ := ih
    rw [splitOn_newline_cons]
    by_cases hc : c = '\n'
    · exact ⟨_, by simp [hc]; rfl⟩
    · exact ⟨lines, by simp [hc, hlines]⟩

/-- Walking over `before` passes whole lines and the front of one more. -/
theorem exists_lines_behind (before : List Char) : ∃ lines front,
    Position.behind before = ⟨lines.length + 1, front.length + 1⟩ ∧
    ∀ after : List Char, (before ++ after).splitOn '\n' =
      lines ++ (after.splitOn '\n').modifyHead (front ++ ·) := by
  induction before using List.reverseRecOn with
  | nil =>
    refine ⟨[], [], rfl, fun after => ?_⟩
    cases hlines : after.splitOn '\n' <;> simp [hlines]
  | append_singleton before c ih =>
    obtain ⟨lines, front, hbehind, hsplit⟩ := ih
    rw [Position.behind_concat, hbehind]
    by_cases hc : c = '\n'
    · refine ⟨lines ++ [front], [], by simp [Position.next, hc], fun after => ?_⟩
      rw [List.append_assoc, hsplit, List.singleton_append, splitOn_newline_cons, if_pos hc]
      cases hlines : after.splitOn '\n' <;> simp
    · refine ⟨lines, front ++ [c], by simp [Position.next, hc], fun after => ?_⟩
      rw [List.append_assoc, hsplit, List.singleton_append, splitOn_newline_cons, if_neg hc,
        List.modifyHead_modifyHead]
      congr 2
      funext line
      simp

theorem Position.ahead_behind {text before after : List Char}
    (h : text.drop (LineIndex.markLength text) = before ++ after) :
    (Position.behind before).ahead text = after.takeWhile (· != '\n') := by
  obtain ⟨lines, front, hbehind, hsplit⟩ := exists_lines_behind before
  obtain ⟨rest, hafter⟩ := splitOn_newline_head after
  unfold Position.ahead
  rw [h, hsplit, hbehind, hafter]
  simp

/-- Characters of one line are read back from the location of their offsets. -/
theorem LineIndex.read_place {text xs after : List Char} {a : Nat} (hmark : markLength text ≤ a)
    (ha : a ≤ text.length) (h : text.drop a = xs ++ after) (hxs : '\n' ∉ xs) :
    ((ofChars text).place a).line = ((ofChars text).place (a + xs.length)).line ∧
    Location.read text ⟨(ofChars text).place a, (ofChars text).place (a + xs.length)⟩ = xs ∧
    ((ofChars text).place (a + xs.length)).ahead text = after.takeWhile (· != '\n') := by
  obtain ⟨before, hbefore, rfl⟩ : ∃ before, text.drop (markLength text) = before ++ (xs ++ after) ∧
      a = markLength text + before.length := by
    refine ⟨(text.drop (markLength text)).take (a - markLength text), ?_, ?_⟩
    · have hrest : (text.drop (markLength text)).drop (a - markLength text) = text.drop a := by
        rw [List.drop_drop, Nat.add_sub_cancel' hmark]
      rw [← h, ← hrest, List.take_append_drop]
    · rw [List.length_take, List.length_drop]
      omega
  have hbehind : text.drop (markLength text) = (before ++ xs) ++ after := by
    rw [hbefore, List.append_assoc]
  have hstop : (ofChars text).place (markLength text + before.length + xs.length) =
      Position.behind (before ++ xs) := by
    rw [Nat.add_assoc, ← List.length_append, place_eq_behind hbehind]
  have hline := Position.behind_append_of_line before hxs
  have hall : ∀ c ∈ xs, (c != '\n') = true := by
    intro c hc
    rw [bne_iff_ne]
    rintro rfl
    exact hxs hc
  rw [place_eq_behind hbefore, hstop]
  refine ⟨by rw [hline], ?_, Position.ahead_behind hbehind⟩
  unfold Location.read
  rw [hline, Position.ahead_behind hbefore, Nat.add_sub_cancel_left,
    List.takeWhile_append_of_pos hall, List.take_left]

end InterpolationLint
