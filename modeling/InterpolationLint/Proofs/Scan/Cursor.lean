import InterpolationLint.Scan.Cursor

/-!
# Moves of a cursor

`c.Reads read d` says that `d` is the place behind the characters `read`, which stand right ahead of
`c`. Every move of the scanner is of this kind, so a cursor that began at the start of a text never
leaves it, and knows what stands before it on its line.
-/

namespace InterpolationLint

theorem lineStartAfter_append (lineStart : Bool) : ∀ (xs ys : List Char),
    lineStartAfter lineStart (xs ++ ys) = lineStartAfter (lineStartAfter lineStart xs) ys
  | [], _ => rfl
  | x :: xs, ys => by
    simp only [List.cons_append, lineStartAfter]
    exact lineStartAfter_append _ xs ys

namespace Cursor

@[simp] theorem advance_offset (c : Cursor) (n : Nat) : (c.advance n).offset = c.offset + n := rfl
@[simp] theorem advance_ahead (c : Cursor) (n : Nat) : (c.advance n).ahead = c.ahead.drop n := rfl
@[simp] theorem advance_opened (c : Cursor) (n : Nat) : (c.advance n).opened = c.opened := rfl
@[simp] theorem enter_offset (c : Cursor) (n : Nat) : (c.enter n).offset = c.offset + n := rfl
@[simp] theorem enter_ahead (c : Cursor) (n : Nat) : (c.enter n).ahead = c.ahead.drop n := rfl
@[simp] theorem enter_opened (c : Cursor) (n : Nat) : (c.enter n).opened = c.opened + 1 := rfl

theorem advance_zero (c : Cursor) : c.advance 0 = c := rfl

theorem advance_advance (c : Cursor) (m n : Nat) :
    (c.advance m).advance n = c.advance (m + n) := by
  simp only [advance, List.drop_drop, List.take_add, lineStartAfter_append, Nat.add_assoc]

/-- `d` is the place behind the characters `read` ahead of `c`. -/
structure Reads (c : Cursor) (read : List Char) (d : Cursor) : Prop where
  ahead : c.ahead = read ++ d.ahead
  offset : d.offset = c.offset + read.length
  lineStart : d.lineStart = lineStartAfter c.lineStart read

namespace Reads

theorem refl (c : Cursor) : c.Reads [] c := ⟨rfl, rfl, rfl⟩

theorem trans {c d e : Cursor} {xs ys : List Char} (h : c.Reads xs d) (h' : d.Reads ys e) :
    c.Reads (xs ++ ys) e where
  ahead := by rw [h.ahead, h'.ahead, List.append_assoc]
  offset := by rw [h'.offset, h.offset, List.length_append, Nat.add_assoc]
  lineStart := by rw [h'.lineStart, h.lineStart, lineStartAfter_append]

theorem advance (c : Cursor) {n : Nat} (hn : n ≤ c.ahead.length) :
    c.Reads (c.ahead.take n) (c.advance n) where
  ahead := (List.take_append_drop n c.ahead).symm
  offset := by rw [advance_offset, List.length_take, Nat.min_eq_left hn]
  lineStart := rfl

theorem enter (c : Cursor) {n : Nat} (hn : n ≤ c.ahead.length) :
    c.Reads (c.ahead.take n) (c.enter n) where
  ahead := (List.take_append_drop n c.ahead).symm
  offset := by rw [enter_offset, List.length_take, Nat.min_eq_left hn]
  lineStart := rfl

theorem textUpTo {c d : Cursor} {read : List Char} (h : c.Reads read d) : c.textUpTo d = read := by
  unfold Cursor.textUpTo
  rw [h.offset, h.ahead, Nat.add_sub_cancel_left, List.take_left]

end Reads

def Reaches (c d : Cursor) : Prop := ∃ read, c.Reads read d

namespace Reaches

theorem refl (c : Cursor) : c.Reaches c := ⟨[], .refl c⟩

theorem trans {c d e : Cursor} (h : c.Reaches d) (h' : d.Reaches e) : c.Reaches e := by
  obtain ⟨xs, hx⟩ := h
  obtain ⟨ys, hy⟩ := h'
  exact ⟨xs ++ ys, hx.trans hy⟩

theorem advance (c : Cursor) {n : Nat} (hn : n ≤ c.ahead.length) : c.Reaches (c.advance n) :=
  ⟨_, .advance c hn⟩

theorem enter (c : Cursor) {n : Nat} (hn : n ≤ c.ahead.length) : c.Reaches (c.enter n) :=
  ⟨_, .enter c hn⟩

theorem offset_le {c d : Cursor} (h : c.Reaches d) : c.offset ≤ d.offset := by
  obtain ⟨read, h⟩ := h
  have := h.offset
  omega

theorem ahead_length {c d : Cursor} (h : c.Reaches d) :
    c.offset + c.ahead.length = d.offset + d.ahead.length := by
  obtain ⟨read, h⟩ := h
  have := h.offset
  rw [h.ahead, List.length_append]
  omega

theorem ahead_length_le {c d : Cursor} (h : c.Reaches d) : d.ahead.length ≤ c.ahead.length := by
  have := h.ahead_length
  have := h.offset_le
  omega

theorem ahead_ne_nil {c d : Cursor} (h : c.Reaches d) (hne : d.ahead ≠ []) : c.ahead ≠ [] := by
  intro hnil
  have := h.ahead_length_le
  rw [hnil] at this
  exact hne (List.eq_nil_of_length_eq_zero (Nat.le_zero.mp this))

end Reaches

def Within (text : List Char) (c : Cursor) : Prop :=
  Cursor.Reaches ⟨0, text, true, 0⟩ c

namespace Within

theorem atStart (text : List Char) : (Cursor.atStart text).Within text := by
  cases text with
  | nil => exact .refl _
  | cons a rest =>
    by_cases ha : a = byteOrderMark
    · subst ha
      exact ⟨[byteOrderMark], rfl, rfl, rfl⟩
    · refine ⟨[], ?_, ?_, rfl⟩ <;> simp [Cursor.atStart, LineIndex.markLength, ha]

theorem reaches {text : List Char} {c d : Cursor} (h : c.Within text) (h' : c.Reaches d) :
    d.Within text := Reaches.trans h h'

theorem offset_add {text : List Char} {c : Cursor} (h : c.Within text) :
    c.offset + c.ahead.length = text.length := by
  have : 0 + text.length = _ := Reaches.ahead_length h
  omega

theorem offset_le {text : List Char} {c : Cursor} (h : c.Within text) :
    c.offset ≤ text.length := by
  have := h.offset_add
  omega

theorem getElem? {text : List Char} {c : Cursor} (h : c.Within text) (i : Nat) :
    text[c.offset + i]? = c.ahead[i]? := by
  obtain ⟨read, h⟩ := h
  have ha : text = read ++ c.ahead := h.ahead
  have ho : c.offset = 0 + read.length := h.offset
  rw [ha, ho, Nat.zero_add, List.getElem?_append_right (Nat.le_add_right _ _),
    Nat.add_sub_cancel_left]

theorem drop_offset {text : List Char} {c : Cursor} (h : c.Within text) :
    text.drop c.offset = c.ahead := by
  obtain ⟨read, h⟩ := h
  have ha : text = read ++ c.ahead := h.ahead
  have ho : c.offset = 0 + read.length := h.offset
  rw [ha, ho, Nat.zero_add, List.drop_left]

end Within

end Cursor

end InterpolationLint
