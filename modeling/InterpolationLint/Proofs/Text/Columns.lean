import InterpolationLint.Proofs.Text.Walk
import Mathlib.Data.List.DropRight

/-!
# Lines and columns by counting

The starts of lines increase, so that looking for the last one at or before an offset divides them
into those of the lines up to the offset and those behind it. What comes out is a plain count: of the
newlines before the offset, and of the characters before it on its line. From a position the offset
can be told again.
-/

namespace InterpolationLint

/-! ## Starts of lines -/

/-- In an increasing list, an initial part is at most `n`, and the rest exceeds it. -/
theorem le_iff_lt_length_takeWhile {n : Nat} : ∀ {starts : List Nat}, starts.Pairwise (· < ·) →
    ∀ {i start : Nat}, starts[i]? = some start →
      (start ≤ n ↔ i < (starts.takeWhile (· ≤ n)).length)
  | [], _, _, _, hi => by simp at hi
  | first :: starts, h, i, start, hi => by
    obtain ⟨hfirst, hstarts⟩ := List.pairwise_cons.mp h
    by_cases hle : first ≤ n
    · rw [List.takeWhile_cons_of_pos (by simpa using hle), List.length_cons]
      cases i with
      | zero =>
        cases hi
        simp [hle]
      | succ i =>
        rw [Nat.add_lt_add_iff_right]
        exact le_iff_lt_length_takeWhile hstarts hi
    · rw [List.takeWhile_cons_of_neg (by simpa using hle)]
      have hlate : first ≤ start := by
        rcases List.mem_cons.mp (List.mem_of_getElem? hi) with rfl | hmem
        · exact Nat.le_refl _
        · exact Nat.le_of_lt (hfirst start hmem)
      simp only [List.length_nil, Nat.not_lt_zero, iff_false]
      omega

namespace LineIndex

theorem startsFrom_increasing (offset : Nat) (cs : List Char) :
    (startsFrom offset cs).Pairwise (· < ·) := by
  fun_induction startsFrom offset cs with
  | case1 => exact .nil
  | case2 offset rest ih =>
    exact List.pairwise_cons.mpr ⟨fun _ hmem => lt_of_mem_startsFrom hmem, ih⟩
  | case3 offset c rest hc ih => exact ih

/-- A byte order mark ends no line. -/
theorem startsFrom_behind_mark (text : List Char) :
    startsFrom 0 text = startsFrom (markLength text) (text.drop (markLength text)) := by
  have hsplit := startsFrom_append 0 (text.take (markLength text)) (text.drop (markLength text))
  rw [List.take_append_drop, startsFrom_take_mark, List.nil_append, List.length_take,
    Nat.min_eq_left (markLength_le text), Nat.zero_add] at hsplit
  exact hsplit

theorem starts_increasing (text : List Char) : (ofChars text).starts.Pairwise (· < ·) := by
  refine List.pairwise_cons.mpr ⟨?_, startsFrom_increasing 0 text⟩
  intro start hstart
  rw [startsFrom_behind_mark] at hstart
  exact lt_of_mem_startsFrom hstart

/-- The lines up to that of an offset are those that start at or before it. -/
theorem start_le_iff {text : List Char} {offset : Nat} (hmark : markLength text ≤ offset)
    {i start : Nat} (hi : (ofChars text).starts[i]? = some start) :
    start ≤ offset ↔ i < ((ofChars text).place offset).line := by
  have hfirst : 0 < ((ofChars text).starts.takeWhile (· ≤ offset)).length := by
    simp [ofChars, hmark]
  rw [le_iff_lt_length_takeWhile (starts_increasing text) hi]
  simp only [place]
  omega

/-- The offset of a position is told by the start of its line. -/
theorem exists_start {text : List Char} {offset : Nat} (hmark : markLength text ≤ offset) :
    ∃ start, (ofChars text).starts[((ofChars text).place offset).line - 1]? = some start ∧
      start ≤ offset ∧ offset = start + ((ofChars text).place offset).column - 1 := by
  obtain ⟨hpos, hline⟩ := place_line_le text offset
  have hlt : ((ofChars text).place offset).line - 1 < (ofChars text).starts.length := by
    unfold lineCount at hline
    omega
  have hstart := List.getElem?_eq_getElem hlt
  have hle := (start_le_iff hmark hstart).mpr (by omega)
  refine ⟨_, hstart, hle, ?_⟩
  have hcolumn : ((ofChars text).place offset).column =
      offset - (ofChars text).starts.getD (((ofChars text).place offset).line - 1) 0 + 1 := rfl
  rw [hcolumn, List.getD_eq_getElem?_getD, hstart, Option.getD_some]
  omega

end LineIndex

/-! ## Columns -/

theorem Position.behind_column (before : List Char) :
    (behind before).column = (before.rtakeWhile (· != '\n')).length + 1 := by
  induction before using List.reverseRecOn with
  | nil => rfl
  | append_singleton before c ih =>
    rw [behind_concat]
    by_cases hc : c = '\n'
    · rw [List.rtakeWhile_concat_neg _ _ _ (by simp [hc])]
      simp [next, hc]
    · rw [List.rtakeWhile_concat_pos _ _ _ (by simp [hc])]
      simp [next, hc, ih]

/-- What stands before an offset on its line. A byte order mark is on no line. -/
def lineFront (text : List Char) (offset : Nat) : List Char :=
  ((text.take offset).drop (LineIndex.markLength text)).rtakeWhile (· != '\n')

namespace LineIndex

theorem column_place {text : List Char} {offset : Nat} (hle : offset ≤ text.length) :
    ((ofChars text).place offset).column = (lineFront text offset).length + 1 := by
  unfold lineFront
  by_cases hmark : markLength text ≤ offset
  · rw [place_eq_behind_take hmark hle, Position.behind_column, ← List.drop_take]
  · -- the offset is that of the mark, before the start of the first line
    have hlate : (ofChars text).starts.takeWhile (· ≤ offset) = [] := by
      simp only [ofChars]
      rw [List.takeWhile_cons_of_neg (by simpa using hmark)]
    have hfront : (text.take offset).drop (markLength text) = [] := by
      rw [List.drop_eq_nil_iff, List.length_take]
      omega
    have hstart : (ofChars text).starts.getD 0 0 = markLength text := rfl
    rw [hfront]
    simp only [place, hlate, List.length_nil, Nat.zero_sub, hstart, List.rtakeWhile_nil]
    omega

theorem position_eq_error_iff {text : List Char} {offset : Nat} {e : OutOfText} :
    (ofChars text).position offset = .error e ↔
      text.length < offset ∧ e = ⟨offset, text.length⟩ := by
  have hlength : (ofChars text).length = text.length := rfl
  unfold position
  by_cases h : text.length < offset <;> simp [hlength, h, eq_comm]

theorem position_eq_ok_iff {text : List Char} {offset : Nat} {p : Position} :
    (ofChars text).position offset = .ok p ↔
      offset ≤ text.length ∧ (ofChars text).place offset = p := by
  have hlength : (ofChars text).length = text.length := rfl
  by_cases h : offset ≤ text.length
  · rw [position_eq_place h]
    simp [h]
  · unfold position
    simp [hlength, h, Nat.lt_of_not_le h]

theorem place_injective {text : List Char} {a b : Nat} (ha : markLength text ≤ a)
    (hb : markLength text ≤ b) (hale : a ≤ text.length) (hble : b ≤ text.length)
    (h : (ofChars text).place a = (ofChars text).place b) : a = b := by
  rcases Nat.lt_trichotomy a b with hlt | heq | hlt
  · have hbefore : ((ofChars text).place a).Before _ := place_before_place ha hlt hble
    exact absurd h hbefore.ne
  · exact heq
  · have hbefore : ((ofChars text).place b).Before _ := place_before_place hb hlt hale
    exact absurd h.symm hbefore.ne

/-- The positions of a text are its lines and columns, counted. Beyond the end there is none. Up to
there the line counts newlines, and the column counts characters of the line. Behind a byte order
mark positions strictly increase with the offsets and tell them: the start of the line is the last
one at or before the offset, and the column is counted from there. -/
theorem position_counts (text : String) :
    (∀ offset e, (ofText text).position offset = .error e ↔
      text.length < offset ∧ e = ⟨offset, text.length⟩) ∧
    (∀ offset, offset ≤ text.length → ∃ p, (ofText text).position offset = .ok p ∧
      p.line = 1 + (text.toList.take offset).count '\n' ∧
      p.column = 1 + (lineFront text.toList offset).length ∧
      p.line ≤ (ofText text).lineCount) ∧
    (∀ a b p q, markLength text.toList ≤ a → a < b →
      (ofText text).position a = .ok p → (ofText text).position b = .ok q → p.Before q) ∧
    (∀ a b p, markLength text.toList ≤ a → markLength text.toList ≤ b →
      (ofText text).position a = .ok p → (ofText text).position b = .ok p → a = b) ∧
    ∀ offset p, markLength text.toList ≤ offset → (ofText text).position offset = .ok p →
      (∃ start, (ofText text).starts[p.line - 1]? = some start ∧
        start ≤ offset ∧ offset = start + p.column - 1) ∧
      ∀ i start, (ofText text).starts[i]? = some start → (start ≤ offset ↔ i < p.line) := by
  simp only [ofText, ← String.length_toList, position_eq_ok_iff]
  refine ⟨fun offset e => position_eq_error_iff, ?_, ?_, ?_, ?_⟩
  · intro offset hle
    refine ⟨_, ⟨hle, rfl⟩, ?_, ?_, (place_line_le _ offset).2⟩
    · rw [line_place hle, Nat.add_comm]
    · rw [column_place hle, Nat.add_comm]
  · rintro a b _ _ hmark hlt ⟨-, rfl⟩ ⟨hb, rfl⟩
    exact place_before_place hmark hlt hb
  · rintro a b p ha hb ⟨hale, hpa⟩ ⟨hble, hpb⟩
    exact place_injective ha hb hale hble (hpa.trans hpb.symm)
  · rintro offset _ hmark ⟨-, rfl⟩
    exact ⟨exists_start hmark, fun i start hi => start_le_iff hmark hi⟩

/-- Behind a byte order mark, two newlines in a row and the end of the text. -/
theorem position_counts_behind_mark :
    (ofText "\ufeff$\n\nab").position 7 = .error ⟨7, 6⟩ ∧
    (∃ p, (ofText "\ufeff$\n\nab").position 2 = .ok p ∧ p.line = 1 + 0 ∧ p.column = 1 + 1 ∧
      p.Before ⟨3, 3⟩) ∧
    ∃ start, (ofText "\ufeff$\n\nab").starts[2]? = some start ∧ 6 = start + 3 - 1 := by
  obtain ⟨hbeyond, hcount, hincreasing, -, htold⟩ := position_counts "\ufeff$\n\nab"
  have hlast : (ofText "\ufeff$\n\nab").position 6 = .ok ⟨3, 3⟩ := by decide
  refine ⟨(hbeyond 7 _).mpr ⟨by decide, rfl⟩, ?_, ?_⟩
  · obtain ⟨p, hp, hline, hcolumn, -⟩ := hcount 2 (by decide)
    exact ⟨p, hp, hline, hcolumn, hincreasing 2 6 p _ (by decide) (by decide) hp hlast⟩
  · obtain ⟨⟨start, hstart, -, hoffset⟩, -⟩ := htold 6 _ (by decide) hlast
    exact ⟨start, hstart, hoffset⟩

end LineIndex

end InterpolationLint
