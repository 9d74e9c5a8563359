import InterpolationLint.Text.Location

/-!
# Lines of a text in two parts

When a newline and a second text follow a first one, the lines of both keep their starts, and a place
in one of them keeps its column. The lines of the second are counted on from those of the first.
-/

namespace InterpolationLint

theorem takeWhile_append_cons {α : Type} {p : α → Bool} {a : α} (ha : p a = false)
    (xs ys : List α) : (xs ++ a :: ys).takeWhile p = xs.takeWhile p := by
  induction xs with
  | nil => simp [ha]
  | cons x xs ih => simp only [List.cons_append, List.takeWhile_cons, ih]

namespace LineIndex

def place (index : LineIndex) (offset : Nat) : Position :=
  let line := (index.starts.takeWhile (· ≤ offset)).length - 1
  ⟨line + 1, offset - index.starts.getD line 0 + 1⟩

theorem position_eq_place {index : LineIndex} {offset : Nat} (h : offset ≤ index.length) :
    index.position offset = .ok (index.place offset) := by
  unfold position
  rw [if_neg (Nat.not_lt.mpr h)]
  rfl

/-! ## Starts of lines -/

theorem startsFrom_add (n : Nat) : ∀ (offset : Nat) (cs : List Char),
    startsFrom (offset + n) cs = (startsFrom offset cs).map (· + n) := by
  intro offset cs
  fun_induction startsFrom offset cs with
  | case1 => rfl
  | case2 offset rest ih =>
    rw [startsFrom, List.map_cons, ← ih, Nat.add_right_comm]
  | case3 offset c rest hc ih =>
    rw [startsFrom, ← ih, Nat.add_right_comm]
    exact hc

theorem startsFrom_append : ∀ (offset : Nat) (xs ys : List Char),
    startsFrom offset (xs ++ ys) = startsFrom offset xs ++ startsFrom (offset + xs.length) ys := by
  intro offset xs ys
  fun_induction startsFrom offset xs with
  | case1 => rfl
  | case2 offset rest ih =>
    rw [List.cons_append, startsFrom, ih, List.cons_append, List.length_cons, Nat.add_assoc,
      Nat.add_comm 1]
  | case3 offset c rest hc ih =>
    rw [List.cons_append, startsFrom, ih, List.length_cons, Nat.add_assoc, Nat.add_comm 1]
    exact hc

theorem startsFrom_le : ∀ (offset : Nat) (cs : List Char),
    ∀ start ∈ startsFrom offset cs, start ≤ offset + cs.length := by
  intro offset cs
  fun_induction startsFrom offset cs with
  | case1 => simp
  | case2 offset rest ih =>
    intro start hstart
    rw [List.length_cons]
    rcases List.mem_cons.mp hstart with rfl | hstart
    · omega
    · have := ih start hstart
      omega
  | case3 offset c rest hc ih =>
    intro start hstart
    have := ih start hstart
    rw [List.length_cons]
    omega

theorem markLength_le (text : List Char) : markLength text ≤ text.length := by
  cases text with
  | nil => exact Nat.le_refl 0
  | cons c text =>
    rw [markLength, List.length_cons]
    split <;> omega

theorem starts_le {text : List Char} {start : Nat} (h : start ∈ (ofChars text).starts) :
    start ≤ text.length := by
  rcases List.mem_cons.mp h with rfl | h
  · exact markLength_le text
  · have := startsFrom_le 0 text start h
    omega

theorem markLength_eq_zero {text : List Char} (h : text.head? ≠ some byteOrderMark) :
    markLength text = 0 := by
  cases text with
  | nil => rfl
  | cons c text =>
    rw [markLength, if_neg]
    rintro rfl
    exact h rfl

theorem markLength_join (s t : List Char) : markLength (s ++ '\n' :: t) = markLength s := by
  cases s <;> rfl

theorem starts_join {s t : List Char} (ht : markLength t = 0) :
    (ofChars (s ++ '\n' :: t)).starts =
      (ofChars s).starts ++ (ofChars t).starts.map (· + (s.length + 1)) := by
  simp only [ofChars, markLength_join, startsFrom_append, Nat.zero_add, startsFrom, ht, List.map_cons,
    List.cons_append]
  rw [← startsFrom_add (s.length + 1) 0 t, Nat.zero_add]

/-! ## Places -/

theorem place_line_le (text : List Char) (offset : Nat) :
    1 ≤ ((ofChars text).place offset).line ∧
      ((ofChars text).place offset).line ≤ (ofChars text).lineCount := by
  have hle : ((ofChars text).starts.takeWhile (· ≤ offset)).length ≤ (ofChars text).starts.length :=
    (List.takeWhile_prefix _).length_le
  have hpos : 1 ≤ (ofChars text).starts.length := by simp [ofChars]
  simp only [place, lineCount]
  omega

theorem place_join_left {s t : List Char} (ht : markLength t = 0) {offset : Nat}
    (h : offset ≤ s.length) :
    (ofChars (s ++ '\n' :: t)).place offset = (ofChars s).place offset := by
  have hpos : 1 ≤ (ofChars s).starts.length := by simp [ofChars]
  have hle : ((ofChars s).starts.takeWhile (· ≤ offset)).length ≤ (ofChars s).starts.length :=
    (List.takeWhile_prefix _).length_le
  have hlines : (ofChars (s ++ '\n' :: t)).starts.takeWhile (· ≤ offset) =
      (ofChars s).starts.takeWhile (· ≤ offset) := by
    rw [starts_join ht]
    apply takeWhile_append_cons
    simp only [decide_eq_false_iff_not]
    omega
  unfold place
  rw [hlines, starts_join ht]
  simp only [List.getD_eq_getElem?_getD]
  rw [List.getElem?_append_left (by omega)]

theorem place_join_right {s t : List Char} (ht : markLength t = 0) (offset : Nat) :
    (ofChars (s ++ '\n' :: t)).place (offset + (s.length + 1)) =
      ⟨((ofChars t).place offset).line + (ofChars s).lineCount,
        ((ofChars t).place offset).column⟩ := by
  have hlines : (ofChars (s ++ '\n' :: t)).starts.takeWhile (· ≤ offset + (s.length + 1)) =
      (ofChars s).starts ++
        ((ofChars t).starts.takeWhile (· ≤ offset)).map (· + (s.length + 1)) := by
    have hbefore : ∀ start ∈ (ofChars s).starts, decide (start ≤ offset + (s.length + 1)) = true := by
      intro start hstart
      have := starts_le hstart
      simp only [decide_eq_true_eq]
      omega
    have hsame : ((fun start => decide (start ≤ offset + (s.length + 1))) ∘ (· + (s.length + 1))) =
        fun start => decide (start ≤ offset) := by
      funext start
      simp only [Function.comp_apply, Nat.add_le_add_iff_right]
    rw [starts_join ht, List.takeWhile_append_of_pos hbefore, List.takeWhile_map, hsame]
  -- the first line of the second text starts at its front, so that at least one line counts
  have hpos : 1 ≤ ((ofChars t).starts.takeWhile (· ≤ offset)).length := by
    simp [ofChars, ht]
  have hle : ((ofChars t).starts.takeWhile (· ≤ offset)).length ≤ (ofChars t).starts.length :=
    (List.takeWhile_prefix _).length_le
  unfold place lineCount
  rw [hlines, starts_join ht]
  simp only [List.getD_eq_getElem?_getD, List.length_append, List.length_map]
  rw [List.getElem?_append_right (by omega)]
  generalize ((ofChars t).starts.takeWhile (· ≤ offset)).length = count at hpos hle ⊢
  have hindex : (ofChars s).starts.length + count - 1 - (ofChars s).starts.length = count - 1 := by
    omega
  have hline : (ofChars s).starts.length + count - 1 + 1 =
      count - 1 + 1 + (ofChars s).starts.length := by
    omega
  rw [hindex, hline, List.getElem?_map, List.getElem?_eq_getElem (by omega)]
  simp only [Option.map_some, Option.getD_some, Nat.add_sub_add_right]

end LineIndex

end InterpolationLint
