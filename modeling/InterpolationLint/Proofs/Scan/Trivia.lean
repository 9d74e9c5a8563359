import InterpolationLint.Proofs.Scan.Derivation
import Mathlib.Data.List.Induction

/-!
# Trivia

What may stand between two items of a text, told by offsets and without the scanner: blanks, comments
to the end of their line, closed block comments, and directive lines. What the scanner skips is of
this kind.
-/

namespace InterpolationLint

def BeginsComment (cs : List Char) : Prop := ['/', '/'] <+: cs ∨ ['/', '*'] <+: cs

/-- The rest of a line from `a` on ends at `b`: before a newline, or with the text. -/
structure LineRest (text : List Char) (a b : Nat) : Prop where
  le : a ≤ b
  fits : b ≤ text.length
  inLine : ∀ i, a ≤ i → i < b → text[i]? ≠ some '\n'
  ends : b = text.length ∨ text[b]? = some '\n'

/-- The first `*/` at or behind `a` ends at `b`. -/
def CommentEnds (text : List Char) (a b : Nat) : Prop :=
  ∃ i, a ≤ i ∧ b = i + 2 ∧ text[i]? = some '*' ∧ text[i + 1]? = some '/' ∧
    ∀ j, a ≤ j → j < i → ¬ (text[j]? = some '*' ∧ text[j + 1]? = some '/')

/-- Only spaces, tabs and byte order marks precede `a` on its line. -/
def Indented (text : List Char) (a : Nat) : Prop :=
  ∀ i, i < a → (∀ j, i ≤ j → j < a → text[j]? ≠ some '\n') →
    ∃ c, text[i]? = some c ∧ isIndent c = true

inductive Trivia (text : List Char) : Nat → Nat → Prop
  | none {a} : Trivia text a a
  | blank {a b c} : text[a]? = some c → isBlank c = true → Trivia text (a + 1) b → Trivia text a b
  | lineComment {a b e} : text[a]? = some '/' → text[a + 1]? = some '/' → LineRest text a e →
      Trivia text e b → Trivia text a b
  | blockComment {a b e} : text[a]? = some '/' → text[a + 1]? = some '*' →
      CommentEnds text (a + 2) e → Trivia text e b → Trivia text a b
  | directive {a b e} : text[a]? = some '#' → Indented text a → LineRest text a e →
      Trivia text e b → Trivia text a b

namespace Trivia

theorem trans {text : List Char} {a b d : Nat} (h : Trivia text a b) (h' : Trivia text b d) :
    Trivia text a d := by
  induction h with
  | none => exact h'
  | blank hc hblank _ ih => exact .blank hc hblank (ih h')
  | lineComment h₁ h₂ hline _ ih => exact .lineComment h₁ h₂ hline (ih h')
  | blockComment h₁ h₂ hends _ ih => exact .blockComment h₁ h₂ hends (ih h')
  | directive h₁ hindent hline _ ih => exact .directive h₁ hindent hline (ih h')

theorem le {text : List Char} {a b : Nat} (h : Trivia text a b) : a ≤ b := by
  induction h with
  | none => exact Nat.le_refl _
  | blank _ _ _ ih => omega
  | lineComment _ _ hline _ ih => exact Nat.le_trans hline.le ih
  | blockComment _ _ hends _ ih =>
    obtain ⟨i, hi, rfl, _⟩ := hends
    omega
  | directive _ _ hline _ ih => exact Nat.le_trans hline.le ih

end Trivia

/-! ## What precedes a place on its line -/

theorem lineStartAfter_concat (lineStart : Bool) (xs : List Char) (c : Char) :
    lineStartAfter lineStart (xs ++ [c]) =
      (c == '\n' || (lineStartAfter lineStart xs && isIndent c)) := by
  rw [lineStartAfter_append]
  rfl

theorem indented_of_lineStartAfter (rest : List Char) : ∀ (before : List Char),
    lineStartAfter true before = true → Indented (before ++ rest) before.length := by
  intro before
  induction before using List.reverseRecOn generalizing rest with
  | nil =>
    intro _ i hi
    cases hi
  | append_singleton xs c ih =>
    intro h i hi hline
    rw [lineStartAfter_concat] at h
    rw [List.append_assoc] at hline ⊢
    rw [List.length_append, List.length_singleton] at hi hline
    have hlast : (xs ++ ([c] ++ rest))[xs.length]? = some c := by simp
    have hc : c ≠ '\n' := by
      intro e
      subst e
      exact hline xs.length (by omega) (by omega) hlast
    simp only [Bool.or_eq_true, beq_iff_eq, hc, false_or, Bool.and_eq_true] at h
    rcases Nat.lt_or_ge i xs.length with hlt | hge
    · exact ih ([c] ++ rest) h.1 i hlt fun j hj hlt' => hline j hj (by omega)
    · obtain rfl : i = xs.length := by omega
      exact ⟨c, hlast, h.2⟩

theorem Cursor.Within.indented {text : List Char} {c : Cursor} (hc : c.Within text)
    (h : c.lineStart = true) : Indented text c.offset := by
  obtain ⟨before, hbefore⟩ := hc
  have htext : text = before ++ c.ahead := hbefore.ahead
  have hoffset : c.offset = 0 + before.length := hbefore.offset
  have hstart : c.lineStart = lineStartAfter true before := hbefore.lineStart
  rw [htext, hoffset, Nat.zero_add]
  exact indented_of_lineStartAfter c.ahead before (hstart ▸ h)

/-! ## What the scanner skips -/

theorem getElem?_of_lt_takeWhile {p : Char → Bool} : ∀ {cs : List Char} {i : Nat},
    i < (cs.takeWhile p).length → ∃ c, cs[i]? = some c ∧ p c = true
  | [], _, h => by simp at h
  | d :: cs, i, h => by
    by_cases hd : p d = true
    · rw [List.takeWhile_cons_of_pos hd, List.length_cons] at h
      cases i with
      | zero => exact ⟨d, rfl, hd⟩
      | succ i =>
        obtain ⟨c, hc⟩ := getElem?_of_lt_takeWhile (Nat.lt_of_succ_lt_succ h)
        exact ⟨c, hc⟩
    · rw [List.takeWhile_cons_of_neg hd] at h
      cases h

theorem getElem?_takeWhile_length {p : Char → Bool} : ∀ {cs : List Char},
    (cs.takeWhile p).length = cs.length ∨ ∃ c, cs[(cs.takeWhile p).length]? = some c ∧ p c = false
  | [] => .inl rfl
  | d :: cs => by
    by_cases hd : p d = true
    · rw [List.takeWhile_cons_of_pos hd]
      rcases @getElem?_takeWhile_length p cs with h | ⟨c, hc⟩
      · exact .inl (by rw [List.length_cons, List.length_cons, h])
      · exact .inr ⟨c, hc⟩
    · rw [List.takeWhile_cons_of_neg hd]
      exact .inr ⟨d, rfl, by simpa using hd⟩

section
variable {text : List Char} {c : Cursor}

theorem Cursor.Within.lineRest (hc : c.Within text) :
    LineRest text c.offset (c.offset + restOfLine c.ahead) where
  le := Nat.le_add_right _ _
  fits := by
    have := hc.offset_add
    have : restOfLine c.ahead ≤ c.ahead.length := (List.takeWhile_prefix _).length_le
    omega
  inLine i hle hlt := by
    obtain ⟨k, rfl⟩ := Nat.exists_eq_add_of_le hle
    obtain ⟨a, ha, hne⟩ := getElem?_of_lt_takeWhile (Nat.lt_of_add_lt_add_left hlt)
    rw [hc.getElem?, ha]
    simpa using hne
  ends := by
    have := hc.offset_add
    rcases getElem?_takeWhile_length with h | ⟨a, ha, hnewline⟩
    · exact .inl (by rw [restOfLine, h]; omega)
    · refine .inr ?_
      rw [hc.getElem?]
      have : a = '\n' := by simpa using hnewline
      rw [← this]
      exact ha

theorem Cursor.Within.trivia_blanks (hc : c.Within text) : ∀ n,
    n ≤ (c.ahead.takeWhile isBlank).length → Trivia text c.offset (c.offset + n)
  | 0, _ => .none
  | n + 1, h => by
    obtain ⟨a, ha, hblank⟩ := getElem?_of_lt_takeWhile h
    refine (hc.trivia_blanks n (Nat.le_of_succ_le h)).trans (.blank ?_ hblank .none)
    rw [hc.getElem?, ha]

theorem blockCommentTail_ends {cs : List Char} {n : Nat} (h : blockCommentTail cs = some n) :
    CommentEnds cs 0 n := by
  fun_induction blockCommentTail cs generalizing n with
  | case1 => cases h
  | case2 rest =>
    cases h
    exact ⟨0, Nat.le_refl _, rfl, rfl, rfl, fun j _ hj => by cases hj⟩
  | case3 d rest hne ih =>
    obtain ⟨m, hm, rfl⟩ := Option.map_eq_some_iff.mp h
    obtain ⟨i, -, rfl, hstar, hslash, hfirst⟩ := ih hm
    refine ⟨i + 1, Nat.zero_le _, by omega, hstar, hslash, ?_⟩
    intro j _ hj
    cases j with
    | zero =>
      rintro ⟨hd, hrest⟩
      have hrest' : rest.head? = some '/' := by simpa [List.head?_eq_getElem?] using hrest
      obtain ⟨rest', rfl⟩ := List.head?_eq_some_iff.mp hrest'
      exact hne rest' (Option.some.inj hd) rfl
    | succ j => exact hfirst j (Nat.zero_le _) (Nat.lt_of_succ_lt_succ hj)

theorem Cursor.Within.commentEnds (hc : c.Within text) {a b : Nat}
    (h : CommentEnds c.ahead a b) : CommentEnds text (c.offset + a) (c.offset + b) := by
  obtain ⟨i, hi, rfl, hstar, hslash, hfirst⟩ := h
  refine ⟨c.offset + i, by omega, by omega, ?_, ?_, ?_⟩
  · rw [hc.getElem?, hstar]
  · rw [Nat.add_assoc, hc.getElem?, hslash]
  · intro j hj hlt
    obtain ⟨k, rfl⟩ := Nat.exists_eq_add_of_le (Nat.le_trans (Nat.le_add_right _ a) hj)
    rw [Nat.add_assoc, hc.getElem?, hc.getElem?]
    exact hfirst k (by omega) (by omega)

end

theorem Lexeme.ofItem_ne_trivia (stops cs : List Char) (n : Nat) :
    Lexeme.ofItem stops cs ≠ .trivia n := by
  intro h
  have hitem := Lexeme.itemOf_ofItem stops cs
  rw [h] at hitem
  exact hitem

/-- The four ways to skip text. -/
theorem Lexeme.read_trivia {stops : List Char} {lineStart : Bool} {cs : List Char} {n : Nat}
    (h : Lexeme.read stops lineStart cs = .trivia n) :
    n = (cs.takeWhile isBlank).length ∨
    (∃ rest, cs = '/' :: '/' :: rest ∧ n = restOfLine cs) ∨
    (∃ rest m, cs = '/' :: '*' :: rest ∧ blockCommentTail rest = some m ∧ n = m + 2) ∨
    (∃ rest, cs = '#' :: rest ∧ lineStart = true ∧ n = restOfLine cs) := by
  unfold Lexeme.read at h
  split at h
  · cases h
  · rename_i c rest
    split at h
    · cases h
    · split at h
      · cases h
        exact .inl rfl
      · split at h
        · rename_i hslash
          cases h
          simp only [Bool.and_eq_true, beq_iff_eq] at hslash
          obtain ⟨rest', rfl⟩ := List.head?_eq_some_iff.mp hslash.2
          exact .inr (.inl ⟨rest', by rw [hslash.1], rfl⟩)
        · split at h
          · rename_i hstar
            simp only [Bool.and_eq_true, beq_iff_eq] at hstar
            obtain ⟨rest', rfl⟩ := List.head?_eq_some_iff.mp hstar.2
            split at h
            · cases h
              exact .inr (.inr (.inl ⟨rest', _, by rw [hstar.1], ‹_›, rfl⟩))
            · cases h
          · split at h
            · rename_i hhash
              cases h
              simp only [Bool.and_eq_true, beq_iff_eq] at hhash
              exact .inr (.inr (.inr ⟨rest, by rw [hhash.1], hhash.2, rfl⟩))
            · exact absurd h (Lexeme.ofItem_ne_trivia stops _ n)

theorem trivia_of_read {text stops : List Char} {c : Cursor} {n : Nat} (hc : c.Within text)
    (h : Lexeme.read stops c.lineStart c.ahead = .trivia n) :
    Trivia text c.offset (c.offset + n) := by
  have h₀ := hc.getElem? 0
  have h₁ := hc.getElem? 1
  rw [Nat.add_zero] at h₀
  rcases Lexeme.read_trivia h with rfl | ⟨rest, hcs, rfl⟩ | ⟨rest, m, hcs, hm, rfl⟩ |
    ⟨rest, hcs, hline, rfl⟩
  · exact hc.trivia_blanks _ (Nat.le_refl _)
  · rw [hcs] at h₀ h₁
    exact .lineComment h₀ h₁ hc.lineRest .none
  · have hends := hc.reaches (Cursor.Reaches.advance c (show 2 ≤ c.ahead.length by simp [hcs]))
    have hends := hends.commentEnds (c := c.advance 2) (a := 0) (b := m)
      (by simpa [hcs] using blockCommentTail_ends hm)
    rw [hcs] at h₀ h₁
    refine .blockComment h₀ h₁ ?_ .none
    simpa [Nat.add_assoc, Nat.add_comm 2 m] using hends
  · rw [hcs] at h₀
    exact .directive h₀ (hc.indented hline) hc.lineRest .none

end InterpolationLint
