import InterpolationLint.Proofs.Text.Lines
import InterpolationLint.Proofs.Text.Walk

/-!
# Two ways to end a line

A line may end with a newline, or with a carriage return and a newline. Written in the second way, a
text is longer: an offset moves on by the number of newlines before it. Its line and column stay, and
so do the lines that the text is split into.
-/

namespace InterpolationLint

/-- A text with a carriage return before every newline. -/
def withReturns : List Char → List Char
  | [] => []
  | c :: rest => if c = '\n' then '\r' :: '\n' :: withReturns rest else c :: withReturns rest

theorem withReturns_newline (rest : List Char) :
    withReturns ('\n' :: rest) = '\r' :: '\n' :: withReturns rest := by
  simp [withReturns]

theorem withReturns_cons {c : Char} (hc : c ≠ '\n') (rest : List Char) :
    withReturns (c :: rest) = c :: withReturns rest := by
  simp [withReturns, hc]

theorem withReturns_append (xs ys : List Char) :
    withReturns (xs ++ ys) = withReturns xs ++ withReturns ys := by
  induction xs with
  | nil => rfl
  | cons c xs ih => by_cases hc : c = '\n' <;> simp [withReturns, hc, ih]

theorem withReturns_of_line {xs : List Char} (h : '\n' ∉ xs) : withReturns xs = xs := by
  induction xs with
  | nil => rfl
  | cons c xs ih =>
    simp only [List.mem_cons, not_or] at h
    rw [withReturns_cons (Ne.symm h.1), ih h.2]

/-! ## Lengths -/

/-- The length of the first `n` characters when they are written with returns. -/
def stretch (cs : List Char) (n : Nat) : Nat := (withReturns (cs.take n)).length

@[simp] theorem stretch_zero (cs : List Char) : stretch cs 0 = 0 := rfl

theorem stretch_newline (rest : List Char) (n : Nat) :
    stretch ('\n' :: rest) (n + 1) = stretch rest n + 2 := by
  simp [stretch, withReturns]

theorem stretch_cons {c : Char} (hc : c ≠ '\n') (rest : List Char) (n : Nat) :
    stretch (c :: rest) (n + 1) = stretch rest n + 1 := by
  simp [stretch, withReturns, hc]

theorem stretch_add (cs : List Char) (m n : Nat) :
    stretch cs (m + n) = stretch cs m + stretch (cs.drop m) n := by
  unfold stretch
  rw [List.take_add, withReturns_append, List.length_append]

theorem stretch_of_line {cs : List Char} {n : Nat} (hn : n ≤ cs.length) (h : '\n' ∉ cs.take n) :
    stretch cs n = n := by
  rw [stretch, withReturns_of_line h, List.length_take, Nat.min_eq_left hn]

theorem withReturns_take_append (cs : List Char) (n : Nat) :
    withReturns cs = withReturns (cs.take n) ++ withReturns (cs.drop n) := by
  rw [← withReturns_append, List.take_append_drop]

theorem take_stretch (cs : List Char) (n : Nat) :
    (withReturns cs).take (stretch cs n) = withReturns (cs.take n) := by
  rw [withReturns_take_append cs n]
  exact List.take_left

theorem drop_stretch (cs : List Char) (n : Nat) :
    (withReturns cs).drop (stretch cs n) = withReturns (cs.drop n) := by
  rw [withReturns_take_append cs n]
  exact List.drop_left

theorem le_stretch {cs : List Char} {n : Nat} (h : n ≤ cs.length) : n ≤ stretch cs n := by
  induction n generalizing cs with
  | zero => exact Nat.zero_le _
  | succ n ih =>
    cases cs with
    | nil => simp at h
    | cons c cs =>
      have := ih (Nat.le_of_succ_le_succ h)
      by_cases hc : c = '\n'
      · rw [hc, stretch_newline]
        omega
      · rw [stretch_cons hc]
        omega

theorem stretch_lt_stretch {cs : List Char} {m n : Nat} (h : m < n) (hn : n ≤ cs.length) :
    stretch cs m < stretch cs n := by
  obtain ⟨k, rfl⟩ := Nat.exists_eq_add_of_lt h
  have : k + 1 ≤ stretch (cs.drop m) (k + 1) := le_stretch (by rw [List.length_drop]; omega)
  rw [Nat.add_assoc, stretch_add]
  omega

/-! ## Positions -/

theorem Position.behind_withReturns (before : List Char) :
    behind (withReturns before) = behind before := by
  induction before using List.reverseRecOn with
  | nil => rfl
  | append_singleton before c ih =>
    rw [withReturns_append, behind_concat]
    by_cases hc : c = '\n'
    · have hpair : withReturns before ++ withReturns [c] =
          withReturns before ++ ['\r'] ++ ['\n'] := by
        simp [hc, withReturns]
      rw [hpair, behind_concat, behind_concat, ih, hc]
      simp [next]
    · rw [withReturns_cons hc, ← ih]
      exact behind_concat _ c

namespace LineIndex

theorem markLength_withReturns (text : List Char) :
    markLength (withReturns text) = markLength text := by
  cases text with
  | nil => rfl
  | cons c text =>
    by_cases hc : c = '\n'
    · subst hc
      rfl
    · rw [withReturns_cons hc]
      rfl

theorem newline_not_mem_take_mark (text : List Char) : '\n' ∉ text.take (markLength text) := by
  cases text with
  | nil => simp
  | cons c text =>
    by_cases hc : c = byteOrderMark
    · simp [markLength, hc, byteOrderMark]
    · simp [markLength, hc]

theorem markLength_le_one (text : List Char) : markLength text ≤ 1 := by
  cases text with
  | nil => exact Nat.zero_le 1
  | cons c text => by_cases hc : c = byteOrderMark <;> simp [markLength, hc]

theorem stretch_mark (text : List Char) : stretch text (markLength text) = markLength text :=
  stretch_of_line (markLength_le text) (newline_not_mem_take_mark text)

theorem drop_mark_withReturns (text : List Char) :
    (withReturns text).drop (markLength text) = withReturns (text.drop (markLength text)) := by
  rw [← drop_stretch, stretch_mark]

theorem place_stretch {text : List Char} {offset : Nat} (h : offset ≤ text.length) :
    (ofChars (withReturns text)).place (stretch text offset) = (ofChars text).place offset := by
  by_cases hmark : markLength text ≤ offset
  · obtain ⟨n, rfl⟩ := Nat.exists_eq_add_of_le hmark
    have hn : n ≤ (text.drop (markLength text)).length := by
      rw [List.length_drop]
      omega
    have hsplit := List.take_append_drop n (text.drop (markLength text))
    have hreturns : (withReturns text).drop (markLength (withReturns text)) =
        withReturns ((text.drop (markLength text)).take n) ++
          withReturns ((text.drop (markLength text)).drop n) := by
      rw [markLength_withReturns, drop_mark_withReturns, ← withReturns_append, hsplit]
    have hplace := place_eq_behind hsplit.symm
    have hplace' := place_eq_behind hreturns
    rw [List.length_take, Nat.min_eq_left hn] at hplace
    rw [Position.behind_withReturns, markLength_withReturns, ← hplace] at hplace'
    rw [stretch_add, stretch_mark]
    exact hplace'
  · -- the place of the mark itself, before the start of the first line
    have hzero : offset = 0 := by
      have := markLength_le_one text
      omega
    have hfirst : ∀ cs : List Char, 0 < markLength cs → (ofChars cs).place 0 = ⟨1, 1⟩ := by
      intro cs hcs
      have hlate : (ofChars cs).starts.takeWhile (· ≤ 0) = [] := by
        rw [ofChars, List.takeWhile_cons_of_neg (by simpa using Nat.ne_of_gt hcs)]
      rw [place, hlate]
      simp
    rw [hzero, stretch_zero, hfirst text (by omega),
      hfirst _ (by rw [markLength_withReturns]; omega)]

end LineIndex

/-! ## Lines -/

theorem splitLines_withReturns {cs : List Char} (h : '\r' ∉ cs) :
    splitLines (withReturns cs) = splitLines cs := by
  induction cs with
  | nil => rfl
  | cons c cs ih =>
    simp only [List.mem_cons, not_or] at h
    by_cases hc : c = '\n'
    · subst hc
      simp [withReturns_newline, splitLines, ih h.2]
    · have hreturn : ∀ rest : List Char, c = '\r' → rest.head? ≠ some '\n' :=
        fun _ hr => absurd hr.symm h.1
      rw [withReturns_cons hc, splitLines_cons hc (hreturn _), splitLines_cons hc (hreturn _),
        firstLine, firstLine, ih h.2]

end InterpolationLint
