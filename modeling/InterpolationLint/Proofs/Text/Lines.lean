import InterpolationLint.Text.Blank
import InterpolationLint.Text.Lines
import Mathlib.Data.List.Infix
import Mathlib.Data.List.TakeWhile

/-!
# Lines, blanks and parts of texts

How a text is split into lines when other text stands before it or behind it, what stripping blanks
leaves, and where a text can occur in one that is put together from parts.
-/

namespace InterpolationLint

/-! ## Lines -/

def firstLine (text : List Char) : List Char := (splitLines text).headD []

theorem splitLines_cons {c : Char} {rest : List Char} (hnewline : c ≠ '\n')
    (hreturn : c = '\r' → rest.head? ≠ some '\n') :
    splitLines (c :: rest) = (c :: firstLine rest) :: (splitLines rest).tail := by
  unfold firstLine
  rw [splitLines]
  · cases splitLines rest <;> rfl
  · exact hnewline
  · rintro rest' hc rfl
    exact hreturn hc rfl

theorem splitLines_ne_nil (c : Char) (rest : List Char) : splitLines (c :: rest) ≠ [] := by
  unfold splitLines
  split
  · cases ‹c :: rest = []›
  · simp
  · simp
  · split <;> simp

def EndsLine (text : List Char) : Prop := text = [] ∨ text.getLast? = some '\n'

theorem EndsLine.tail {c : Char} {rest : List Char} (h : EndsLine (c :: rest)) : EndsLine rest := by
  cases rest with
  | nil => exact .inl rfl
  | cons b rest => simpa [EndsLine, List.getLast?_cons_cons] using h

/-- A text up to the end of one of its lines is split by itself, and has as many lines as
newlines. -/
theorem splitLines_append {above : List Char} (h : EndsLine above) (text : List Char) :
    splitLines (above ++ text) = splitLines above ++ splitLines text ∧
      (splitLines above).length = above.count '\n' := by
  fun_induction splitLines above with
  | case1 => simp
  | case2 rest ih => simpa [splitLines] using ih h.tail
  | case3 rest ih => simpa [splitLines] using ih h.tail.tail
  | case4 c rest hnewline hreturn hnil ih =>
    cases rest with
    | nil => simp_all [EndsLine]
    | cons b rest => exact absurd hnil (splitLines_ne_nil b rest)
  | case5 c rest hnewline hreturn line lines hlines ih =>
    obtain ⟨happend, hlength⟩ := ih h.tail
    have hhead : c = '\r' → (rest ++ text).head? ≠ some '\n' := by
      cases rest with
      | nil => simp [splitLines] at hlines
      | cons b rest =>
        intro hc hb
        exact hreturn rest hc (by simpa using hb)
    rw [List.cons_append, splitLines_cons hnewline hhead, firstLine, happend, hlines]
    rw [hlines] at hlength
    refine ⟨rfl, ?_⟩
    rw [List.count_cons_of_ne hnewline, ← hlength]
    rfl

/-- A line that does not end in a carriage return, before an end of line. -/
theorem splitLines_line {line below : List Char} (hne : line ≠ []) (hnewline : '\n' ∉ line)
    (hreturn : line.getLast? ≠ some '\r') (hbelow : firstLine below = []) :
    splitLines (line ++ below) = line :: (splitLines below).tail := by
  induction line with
  | nil => exact absurd rfl hne
  | cons c line ih =>
    have hc : c ≠ '\n' := fun h => hnewline (h ▸ List.mem_cons_self)
    cases line with
    | nil =>
      have hr : c ≠ '\r' := by simpa using hreturn
      rw [List.singleton_append, splitLines_cons hc (fun h => absurd h hr), hbelow]
    | cons b line =>
      have hrest := ih (by simp) (fun h => hnewline (List.mem_cons_of_mem c h))
        (by simpa [List.getLast?_cons_cons] using hreturn)
      rw [List.cons_append, splitLines_cons hc, firstLine, hrest]
      · rfl
      · intro _ hb
        simp_all

/-! ## Blanks at the ends -/

theorem isEmpty_trim (cs : List Char) : (trim cs).isEmpty = cs.all isBlank := by
  unfold trim trimEnd trimStart
  rw [Bool.eq_iff_iff, List.isEmpty_iff, List.reverse_eq_nil_iff, List.dropWhile_eq_nil_iff,
    List.all_eq_true]
  simp only [List.mem_reverse]
  induction cs with
  | nil => simp
  | cons c cs ih => by_cases hc : isBlank c <;> simp [hc, ih]

theorem trimStart_cons_of_blank {c : Char} (hc : isBlank c = true) (cs : List Char) :
    trimStart (c :: cs) = trimStart cs := by
  simp [trimStart, hc]

theorem trimStart_cons_of_not_blank {c : Char} (hc : isBlank c = false) (cs : List Char) :
    trimStart (c :: cs) = c :: cs := by
  simp [trimStart, hc]

theorem trimStart_append_of_dense {cs : List Char} (hne : cs ≠ [])
    (h : ∀ c ∈ cs, isBlank c = false) (rest : List Char) :
    trimStart (cs ++ rest) = cs ++ rest := by
  cases cs with
  | nil => exact absurd rfl hne
  | cons c cs => exact trimStart_cons_of_not_blank (h c List.mem_cons_self) _

theorem trim_cons_of_blank {c : Char} (hc : isBlank c = true) (cs : List Char) :
    trim (c :: cs) = trim cs := by
  rw [trim, trimStart_cons_of_blank hc, trim]

theorem trim_concat_of_blank {c : Char} (hc : isBlank c = true) (cs : List Char) :
    trim (cs ++ [c]) = trim cs := by
  induction cs with
  | nil => simp [trim, trimStart, hc]
  | cons b cs ih =>
    by_cases hb : isBlank b
    · rw [List.cons_append, trim_cons_of_blank hb, trim_cons_of_blank hb, ih]
    · have hb : isBlank b = false := by simpa using hb
      rw [List.cons_append, trim, trim, trimStart_cons_of_not_blank hb,
        trimStart_cons_of_not_blank hb]
      simp [trimEnd, hc]

theorem not_blank_of_getLast?_trim {cs : List Char} {c : Char} (h : (trim cs).getLast? = some c) :
    isBlank c = false := by
  rw [trim, trimEnd, List.getLast?_reverse] at h
  simpa [h] using List.head?_dropWhile_not isBlank (trimStart cs).reverse

/-! ## Texts within texts -/

section
variable {front : List Char} {c : Char} (hc : c ∉ front)
include hc

theorem prefix_of_append_cons (xs : List Char) {ys : List Char} (h : front <+: xs ++ c :: ys) :
    front <+: xs := by
  obtain ⟨rest, h⟩ := h
  rcases List.append_eq_append_iff.mp h with ⟨a, ha, -⟩ | ⟨a, ha, hrest⟩
  · exact ⟨a, ha.symm⟩
  · cases a with
    | nil => simp [ha]
    | cons b a =>
      obtain ⟨rfl, -⟩ := List.cons.inj hrest
      simp [ha] at hc

theorem infix_of_append_cons (xs : List Char) {ys : List Char} (h : front <:+: xs ++ c :: ys) :
    front <:+: xs ∨ front <:+: ys := by
  induction xs with
  | nil =>
    rcases List.infix_cons_iff.mp h with hahead | hwithin
    · exact .inl (prefix_of_append_cons hc [] hahead).isInfix
    · exact .inr hwithin
  | cons x xs ih =>
    rcases List.infix_cons_iff.mp h with hahead | hwithin
    · exact .inl (prefix_of_append_cons hc (x :: xs) hahead).isInfix
    · exact (ih hwithin).imp_left (·.trans (List.suffix_cons x xs).isInfix)

end

end InterpolationLint
