import InterpolationLint.Proofs.Scan.NextLine
import InterpolationLint.Proofs.Text.LineEnds

/-!
# Lexemes and ends of lines

With a carriage return before every newline a lexeme is the same one, longer by the returns in it.
There are two exceptions, and neither of them counts in the end: a comment that runs up to a newline
takes the return before it, which is a blank otherwise, and a newline in the text of a string is read
in two steps.
-/

namespace InterpolationLint

/-- No carriage return stands in the text, and no newline right behind a backslash. -/
structure PlainEnds (cs : List Char) : Prop where
  return_not_mem : '\r' ∉ cs
  not_escaped : ¬['\\', '\n'] <:+: cs

namespace PlainEnds

theorem of_suffix {xs ys : List Char} (h : PlainEnds ys) (hxs : xs <:+ ys) : PlainEnds xs where
  return_not_mem hmem := h.return_not_mem (hxs.subset hmem)
  not_escaped hpair := h.not_escaped (hpair.trans hxs.isInfix)

theorem tail {c : Char} {rest : List Char} (h : PlainEnds (c :: rest)) : PlainEnds rest :=
  h.of_suffix (List.suffix_cons c rest)

theorem drop {cs : List Char} (h : PlainEnds cs) (n : Nat) : PlainEnds (cs.drop n) :=
  h.of_suffix (List.drop_suffix n cs)

theorem ne_newline {c : Char} {rest : List Char} (h : PlainEnds ('\\' :: c :: rest)) :
    c ≠ '\n' := by
  rintro rfl
  exact h.not_escaped ⟨[], rest, rfl⟩

end PlainEnds

/-! ## Looking ahead -/

theorem takeWhile_withReturns {p : Char → Bool} (h : p '\r' = p '\n') (cs : List Char) :
    (withReturns cs).takeWhile p = withReturns (cs.takeWhile p) := by
  induction cs with
  | nil => rfl
  | cons c cs ih =>
    by_cases hc : c = '\n'
    · subst hc
      by_cases hp : p '\n' <;> simp [withReturns, h, hp, ih]
    · by_cases hp : p c <;> simp [withReturns, hc, hp, ih]

theorem take_length_takeWhile (p : Char → Bool) (cs : List Char) :
    cs.take (cs.takeWhile p).length = cs.takeWhile p :=
  (List.prefix_iff_eq_take.mp (List.takeWhile_prefix p)).symm

theorem length_takeWhile_withReturns {p : Char → Bool} (h : p '\r' = p '\n') (cs : List Char) :
    ((withReturns cs).takeWhile p).length = stretch cs (cs.takeWhile p).length := by
  rw [takeWhile_withReturns h, stretch, take_length_takeWhile]

section
variable {a : Char} (hreturn : a ≠ '\r') (hnewline : a ≠ '\n')
include hnewline

theorem newline_not_mem_run {n : Nat} {cs : List Char} (h : n ≤ runLength a cs) :
    '\n' ∉ cs.take n := by
  intro hmem
  have hrun : '\n' ∈ cs.takeWhile (· == a) := by
    rw [← take_length_takeWhile]
    exact (List.take_prefix_take_left h).subset hmem
  exact hnewline (eq_of_beq (List.mem_takeWhile_imp (p := (· == a)) hrun)).symm

theorem stretch_run {n : Nat} {cs : List Char} (h : n ≤ runLength a cs) : stretch cs n = n :=
  stretch_of_line (Nat.le_trans h (runLength_le a cs)) (newline_not_mem_run hnewline h)

include hreturn

theorem runLength_withReturns (cs : List Char) :
    runLength a (withReturns cs) = runLength a cs := by
  have hends : (('\r' : Char) == a) = (('\n' : Char) == a) := by
    simp [Ne.symm hreturn, Ne.symm hnewline]
  rw [runLength, length_takeWhile_withReturns hends]
  exact stretch_run hnewline (Nat.le_refl _)

theorem head?_withReturns (cs : List Char) :
    (withReturns cs).head? = some a ↔ cs.head? = some a := by
  cases cs with
  | nil => rfl
  | cons c cs =>
    by_cases hc : c = '\n'
    · simp [hc, withReturns, Ne.symm hreturn, Ne.symm hnewline]
    · simp [withReturns, hc]

theorem eq_cons_of_withReturns {cs rest : List Char} (h : withReturns cs = a :: rest) :
    ∃ rest', cs = a :: rest' := by
  apply List.head?_eq_some_iff.mp
  apply (head?_withReturns hreturn hnewline cs).mp
  rw [h, List.head?_cons]

end

theorem isPrefixOf_withReturns : ∀ {word : List Char}, '\r' ∉ word → '\n' ∉ word →
    ∀ cs : List Char, word.isPrefixOf (withReturns cs) = word.isPrefixOf cs
  | [], _, _, _ => by simp
  | w :: word, _, _, [] => rfl
  | w :: word, hreturn, hnewline, c :: cs => by
    simp only [List.mem_cons, not_or] at hreturn hnewline
    by_cases hc : c = '\n'
    · have hw : (w == '\r') = false ∧ (w == '\n') = false := by
        simp [Ne.symm hreturn.1, Ne.symm hnewline.1]
      simp [hc, withReturns, List.isPrefixOf, hw]
    · have ih := isPrefixOf_withReturns hreturn.2 hnewline.2 cs
      simp only [withReturns, hc, if_false, List.isPrefixOf, ih]

theorem atScopeQualifier_withReturns (cs : List Char) :
    atScopeQualifier (withReturns cs) = atScopeQualifier cs := by
  rw [atScopeQualifier_eq, atScopeQualifier_eq, isPrefixOf_withReturns (by decide) (by decide)]

theorem drop_run_withReturns {a : Char} (ha : a ≠ '\n') {n : Nat} {cs : List Char}
    (h : n ≤ runLength a cs) : (withReturns cs).drop n = withReturns (cs.drop n) := by
  rw [← drop_stretch, stretch_run ha h]

theorem opening?_withReturns (cs : List Char) : opening? (withReturns cs) = opening? cs := by
  rw [opening?_eq, opening?_eq, isPrefixOf_withReturns (by decide) (by decide),
    isPrefixOf_withReturns (by decide) (by decide), runLength_withReturns (by decide) (by decide),
    drop_run_withReturns (by decide) (Nat.le_refl (runLength '$' cs)),
    runLength_withReturns (by decide) (by decide)]

theorem startsItem_withReturns (cs : List Char) : startsItem (withReturns cs) = startsItem cs := by
  simp only [startsItem_eq, opening?_withReturns]
  rw [isPrefixOf_withReturns (by decide) (by decide), isPrefixOf_withReturns (by decide) (by decide),
    isPrefixOf_withReturns (by decide) (by decide), isPrefixOf_withReturns (by decide) (by decide),
    isPrefixOf_withReturns (by decide) (by decide)]

theorem stretch_marker {cs : List Char} {kind : StringKind} {marker : Nat}
    (h : opening? cs = some (kind, marker)) : stretch cs marker = marker := by
  rcases opening?_cases h with ⟨-, rfl, rest, rfl | rfl⟩ |
    ⟨dollars, quotes, -, rfl, -, -, hdollars, hquotes⟩ | ⟨-, rfl, rest, rfl⟩
  · simp [stretch, withReturns]
  · simp [stretch, withReturns]
  · rw [stretch_add, stretch_run (by decide) (Nat.le_of_eq hdollars),
      stretch_run (by decide) (Nat.le_of_eq hquotes)]
  · simp [stretch, withReturns]

/-! ## Lengths -/

theorem map_stretch_newline (rest : List Char) (length? : Option Nat) :
    ((length?.map (stretch rest)).map (· + 1)).map (· + 1) =
      (length?.map (· + 1)).map (stretch ('\n' :: rest)) := by
  cases length? with
  | none => rfl
  | some n => simp [stretch_newline]

theorem map_stretch_cons {c : Char} (hc : c ≠ '\n') (rest : List Char) (length? : Option Nat) :
    (length?.map (stretch rest)).map (· + 1) = (length?.map (· + 1)).map (stretch (c :: rest)) := by
  cases length? with
  | none => rfl
  | some n => simp [stretch_cons hc]

theorem map_stretch_cons_cons {c d : Char} (hc : c ≠ '\n') (hd : d ≠ '\n') (rest : List Char)
    (length? : Option Nat) : (length?.map (stretch rest)).map (· + 2) =
      (length?.map (· + 2)).map (stretch (c :: d :: rest)) := by
  cases length? with
  | none => rfl
  | some n => simp [stretch_cons hc, stretch_cons hd]

theorem blockCommentTail_withReturns (cs : List Char) :
    blockCommentTail (withReturns cs) = (blockCommentTail cs).map (stretch cs) := by
  fun_induction blockCommentTail cs with
  | case1 => rfl
  | case2 rest => simp [withReturns, blockCommentTail, stretch]
  | case3 c rest hne ih =>
    by_cases hc : c = '\n'
    · subst hc
      rw [withReturns_newline, blockCommentTail, blockCommentTail, ih, map_stretch_newline]
      all_goals simp
    · rw [withReturns_cons hc, blockCommentTail, ih, map_stretch_cons hc]
      intro rest' hstar hrest
      obtain ⟨rest'', h⟩ := eq_cons_of_withReturns (by decide) (by decide) hrest
      exact hne rest'' hstar h

theorem verbatimTail_withReturns (cs : List Char) :
    verbatimTail (withReturns cs) = (verbatimTail cs).map (stretch cs) := by
  fun_induction verbatimTail cs with
  | case1 => rfl
  | case2 rest ih =>
    rw [← map_stretch_cons_cons (by decide) (by decide), ← ih]
    simp [withReturns, verbatimTail]
  | case3 rest hne =>
    rw [withReturns_cons (by decide), verbatimTail]
    · simp [stretch, withReturns]
    · intro rest' hrest
      obtain ⟨rest'', h⟩ := eq_cons_of_withReturns (by decide) (by decide) hrest
      exact hne rest'' h
  | case4 c rest h₁ h₂ ih =>
    by_cases hc : c = '\n'
    · subst hc
      rw [withReturns_newline, verbatimTail, verbatimTail, ih, map_stretch_newline]
      all_goals simp
    · rw [withReturns_cons hc, verbatimTail, ih, map_stretch_cons hc]
      · exact fun _ h _ => h₂ h
      · exact h₂

theorem rawTail_withReturns (quotes run : Nat) (cs : List Char) :
    rawTail quotes run (withReturns cs) = (rawTail quotes run cs).map (stretch cs) := by
  fun_induction rawTail quotes run cs with
  | case1 run hrun => simp [withReturns, rawTail, hrun]
  | case2 run hrun => simp [withReturns, rawTail, hrun]
  | case3 run rest ih =>
    rw [withReturns_cons (by decide), rawTail, ih, map_stretch_cons (c := '"') (by decide)]
  | case4 run c rest hc hrun =>
    by_cases hnewline : c = '\n'
    · simp [hnewline, withReturns_newline, rawTail, hrun]
    · simp [withReturns_cons hnewline, rawTail, hrun]
  | case5 run c rest hc hrun ih =>
    by_cases hnewline : c = '\n'
    · have hquotes : quotes ≠ 0 := by omega
      subst hnewline
      rw [withReturns_newline, rawTail, if_neg hrun, rawTail, if_neg (by omega), ih,
        map_stretch_newline]
      all_goals simp
    · rw [withReturns_cons hnewline, rawTail, if_neg hrun, ih, map_stretch_cons hnewline]
      exact hc

/-- A newline in a literal on one line ends it in failure, with a return before it and without. -/
theorem quotedTail_withReturns {quote : Char} (hquote : quote ≠ '\r') {cs : List Char}
    (h : PlainEnds cs) :
    quotedTail quote (withReturns cs) = (quotedTail quote cs).map (stretch cs) := by
  have hplain : ∀ {c : Char} {rest : List Char}, (c = '\\' → rest = [] → False) →
      (∀ d rest', c = '\\' → rest = d :: rest' → False) → c ≠ '\\' := by
    rintro c rest h₁ h₂ rfl
    cases rest with
    | nil => exact h₁ rfl rfl
    | cons d rest => exact h₂ d rest rfl rfl
  fun_induction quotedTail quote cs with
  | case1 => rfl
  | case2 => rfl
  | case3 d rest ih =>
    have hd := h.ne_newline
    rw [← map_stretch_cons_cons (by decide) hd, ← ih h.tail.tail]
    simp [withReturns, hd, quotedTail]
  | case4 rest h₁ h₂ =>
    simp [withReturns_newline, quotedTail, Ne.symm hquote]
  | case5 rest h₁ h₂ hnewline =>
    have hc := hplain h₁ h₂
    simp [withReturns_cons hnewline, quotedTail, hc, hnewline, stretch_cons hnewline]
  | case6 c rest h₁ h₂ hnewline hne ih =>
    have hc := hplain h₁ h₂
    simp only [withReturns_cons hnewline, ← map_stretch_cons hnewline, ← ih h.tail]
    simp [quotedTail, hc, hnewline, hne]

theorem map_add_stretch {cs : List Char} {n : Nat} (hn : stretch cs n = n) (length? : Option Nat) :
    (length?.map (stretch (cs.drop n))).map (· + n) = (length?.map (· + n)).map (stretch cs) := by
  cases length? with
  | none => rfl
  | some m => simp [Nat.add_comm _ n, stretch_add, hn]

theorem stringLength_withReturns {rest : List Char} (h : PlainEnds ('"' :: rest)) :
    stringLength (withReturns ('"' :: rest)) =
      (stringLength ('"' :: rest)).map (stretch ('"' :: rest)) := by
  have hone : 1 ≤ runLength '"' ('"' :: rest) := by simp [runLength_cons_self]
  unfold stringLength
  rw [runLength_withReturns (by decide) (by decide)]
  dsimp only
  rw [drop_run_withReturns (by decide) (Nat.le_refl _), drop_run_withReturns (by decide) hone]
  split
  · rw [rawTail_withReturns, map_add_stretch (stretch_run (by decide) (Nat.le_refl _))]
  · rw [quotedTail_withReturns (by decide) (h.drop 1), map_add_stretch (stretch_run (by decide) hone)]

theorem numberLength_withReturns (cs : List Char) :
    numberLength (withReturns cs) = stretch cs (numberLength cs) := by
  have hdigit : ∀ cs : List Char,
      (withReturns cs).head?.any Char.isDigit = cs.head?.any Char.isDigit := by
    intro cs
    cases cs with
    | nil => rfl
    | cons c cs =>
      by_cases hc : c = '\n'
      · subst hc
        rfl
      · simp [withReturns, hc]
  fun_induction numberLength cs with
  | case1 => rfl
  | case2 c rest h ih =>
    have hc : c ≠ '\n' := by
      rintro rfl
      simp at h
    rw [withReturns_cons hc, numberLength, hdigit, if_pos h, ih, stretch_cons hc]
  | case3 c rest h =>
    by_cases hc : c = '\n'
    · subst hc
      rfl
    · rw [withReturns_cons hc, numberLength, hdigit, if_neg h, stretch_zero]

theorem codeTail_withReturns (stops cs : List Char) :
    codeTail stops (withReturns cs) = stretch cs (codeTail stops cs) := by
  have hcolons : ∀ {c : Char} {rest : List Char}, (∀ rest', c = ':' → rest = ':' :: rest' → False) →
      ∀ rest', c = ':' → withReturns rest = ':' :: rest' → False := by
    intro c rest hne rest' hc hrest
    obtain ⟨rest'', h⟩ := eq_cons_of_withReturns (by decide) (by decide) hrest
    exact hne rest'' hc h
  fun_induction codeTail stops cs with
  | case1 => rfl
  | case2 rest ih =>
    simp [withReturns, codeTail, ih, stretch_cons]
  | case3 c rest hne hstop =>
    by_cases hc : c = '\n'
    · simp [hc, withReturns, codeTail, show isBlank '\r' = true by decide]
    · rw [withReturns_cons hc, codeTail.eq_3 _ _ _ (hcolons hne), ← withReturns_cons hc,
        startsItem_withReturns, if_pos hstop, stretch_zero]
  | case4 c rest hne hstop ih =>
    have hc : c ≠ '\n' := by
      rintro rfl
      simp [show isBlank '\n' = true by decide] at hstop
    rw [withReturns_cons hc, codeTail.eq_3 _ _ _ (hcolons hne), ← withReturns_cons hc,
      startsItem_withReturns, if_neg hstop, ih, stretch_cons hc]

theorem codeLength_withReturns (stops : List Char) {c : Char} (hc : c ≠ '\n') (rest : List Char) :
    codeLength stops (withReturns (c :: rest)) =
      stretch (c :: rest) (codeLength stops (c :: rest)) := by
  have hhead : stretch (c :: rest) (if atScopeQualifier (c :: rest) then 2 else 1) =
      if atScopeQualifier (c :: rest) then 2 else 1 := by
    split
    · rename_i hqualifier
      obtain ⟨rest', heq⟩ := List.isPrefixOf_iff_prefix.mp (atScopeQualifier_eq _ ▸ hqualifier)
      simp [← heq, stretch, withReturns]
    · simp [stretch_cons hc]
  unfold codeLength
  rw [atScopeQualifier_withReturns]
  dsimp only
  rw [Nat.add_comm (codeTail stops _), Nat.add_comm (codeTail stops _), stretch_add, hhead,
    ← codeTail_withReturns, ← drop_stretch, hhead]

/-! ## Lexemes -/

def Lexeme.stretched (cs : List Char) : Lexeme → Lexeme
  | .trivia length => .trivia (stretch cs length)
  | .literal length => .literal (stretch cs length)
  | .code length => .code (stretch cs length)
  | lexeme => lexeme

theorem Lexeme.stretched_ofLiteral? (cs : List Char) (length? : Option Nat) :
    (Lexeme.ofLiteral? length?).stretched cs = .ofLiteral? (length?.map (stretch cs)) := by
  cases length? <;> rfl

theorem Lexeme.ofItem_withReturns (stops : List Char) {c : Char} {rest : List Char}
    (h : PlainEnds (c :: rest)) (hc : c ≠ '\n') :
    Lexeme.ofItem stops (withReturns (c :: rest)) =
      (Lexeme.ofItem stops (c :: rest)).stretched (c :: rest) := by
  have hopening := opening?_withReturns (c :: rest)
  have hnumber := numberLength_withReturns (c :: rest)
  have hcode := codeLength_withReturns stops hc rest
  rw [withReturns_cons hc] at hopening hnumber hcode ⊢
  by_cases hmarker : (opening? (c :: rest)).isSome
  · obtain ⟨⟨kind, marker⟩, hsome⟩ := Option.isSome_iff_exists.mp hmarker
    unfold ofItem
    rw [hopening, hsome]
    rfl
  have hnone := Option.not_isSome_iff_eq_none.mp hmarker
  by_cases hquote : c = '"'
  · subst hquote
    have hstring := stringLength_withReturns h
    rw [withReturns_cons hc] at hstring
    simp only [ofItem, hopening, hnone, hstring, stretched_ofLiteral?]
  by_cases hapostrophe : c = '\''
  · subst hapostrophe
    simp only [ofItem, hopening, hnone, stretched_ofLiteral?, ← map_stretch_cons hc,
      ← quotedTail_withReturns (by decide : '\'' ≠ '\r') h.tail]
  by_cases hat : c = '@' ∧ rest.head? = some '"'
  · obtain ⟨rfl, hhead⟩ := hat
    obtain ⟨rest, rfl⟩ := List.head?_eq_some_iff.mp hhead
    rw [withReturns_cons (by decide)] at hopening ⊢
    simp only [ofItem, hopening, hnone, stretched_ofLiteral?,
      ← map_stretch_cons_cons hc (by decide : '"' ≠ '\n'), ← verbatimTail_withReturns]
  have hat' : ¬ (c = '@' ∧ (withReturns rest).head? = some '"') := by
    rwa [head?_withReturns (by decide) (by decide)]
  rw [ofItem_of_no_string hquote hapostrophe hat' (hopening.trans hnone),
    ofItem_of_no_string hquote hapostrophe hat hnone, hnumber, hcode]
  split
  · rfl
  · split
    · rfl
    · split <;> rfl

theorem restOfLine_withReturns (cs : List Char) :
    restOfLine (withReturns cs) = stretch cs (restOfLine cs) ∨
      (cs.drop (restOfLine cs)).head? = some '\n' ∧
        restOfLine (withReturns cs) = stretch cs (restOfLine cs) + 1 := by
  induction cs with
  | nil => exact .inl rfl
  | cons c cs ih =>
    by_cases hc : c = '\n'
    · subst hc
      exact .inr ⟨rfl, rfl⟩
    · have hrest : restOfLine (c :: cs) = restOfLine cs + 1 := by simp [restOfLine, hc]
      have hreturns : restOfLine (withReturns (c :: cs)) = restOfLine (withReturns cs) + 1 := by
        simp [restOfLine, withReturns, hc]
      rw [hrest, hreturns, stretch_cons hc, List.drop_succ_cons]
      rcases ih with hlength | ⟨hnewline, hlength⟩
      · exact .inl (by omega)
      · exact .inr ⟨hnewline, by omega⟩

/-- A comment or directive up to a newline takes the return before it. All else is read as it is
without returns. -/
theorem Lexeme.read_withReturns {stops : List Char} (lineStart : Bool) {cs : List Char}
    (h : PlainEnds cs) (hstops : ∀ s ∈ stops, isBlank s = false) :
    Lexeme.read stops lineStart (withReturns cs) =
        (Lexeme.read stops lineStart cs).stretched cs ∨
      ∃ n, Lexeme.read stops lineStart cs = .trivia n ∧ (cs.drop n).head? = some '\n' ∧
        Lexeme.read stops lineStart (withReturns cs) = .trivia (stretch cs n + 1) := by
  cases cs with
  | nil => exact .inl rfl
  | cons c rest =>
    by_cases hblank : isBlank c = true
    · -- blanks of both kinds run on to the same place
      left
      have hrun := length_takeWhile_withReturns (p := isBlank) (by decide) (c :: rest)
      rw [List.takeWhile_cons_of_pos hblank, List.length_cons] at hrun
      rw [Lexeme.read_blank hblank hstops, stretched, ← hrun]
      by_cases hc : c = '\n'
      · subst hc
        rw [withReturns_newline, Lexeme.read_blank (by decide) hstops,
          List.takeWhile_cons_of_pos (a := '\r') (by decide), List.length_cons]
      · rw [withReturns_cons hc, Lexeme.read_blank hblank hstops,
          List.takeWhile_cons_of_pos hblank, List.length_cons]
    have hc : c ≠ '\n' := by
      rintro rfl
      exact hblank (by decide)
    have hnext : ∀ {a : Char}, a ≠ '\r' → a ≠ '\n' →
        ((withReturns rest).head? == some a) = (rest.head? == some a) := by
      intro a hreturn hnewline
      rw [Bool.eq_iff_iff, beq_iff_eq, beq_iff_eq]
      exact head?_withReturns hreturn hnewline rest
    have hqualifier := atScopeQualifier_withReturns (c :: rest)
    have hline := restOfLine_withReturns (c :: rest)
    have hitem := Lexeme.ofItem_withReturns stops h hc
    rw [withReturns_cons hc] at hqualifier hline hitem ⊢
    rw [Bool.not_eq_true] at hblank
    simp only [read, hqualifier, hnext (a := '/') (by decide) (by decide),
      hnext (a := '*') (by decide) (by decide), hblank, Bool.false_eq_true, ite_false, hitem]
    have htoLine : Lexeme.trivia (restOfLine (c :: withReturns rest)) =
          (Lexeme.trivia (restOfLine (c :: rest))).stretched (c :: rest) ∨
        ∃ n, Lexeme.trivia (restOfLine (c :: rest)) = .trivia n ∧
          ((c :: rest).drop n).head? = some '\n' ∧
            Lexeme.trivia (restOfLine (c :: withReturns rest)) =
              .trivia (stretch (c :: rest) n + 1) := by
      refine hline.imp (fun hsame => by rw [hsame]; rfl) fun hmore => ?_
      exact ⟨_, rfl, hmore.1, by rw [hmore.2]⟩
    split
    · exact .inl rfl
    · split
      · exact htoLine
      · split
        · rename_i hstar
          left
          simp only [Bool.and_eq_true, beq_iff_eq] at hstar
          obtain ⟨rest', rfl⟩ := List.head?_eq_some_iff.mp hstar.2
          rw [withReturns_cons (by decide), List.tail_cons, List.tail_cons,
            blockCommentTail_withReturns]
          cases blockCommentTail rest' with
          | none => rfl
          | some n => simp [stretched, stretch_cons hc, stretch_cons (by decide : '*' ≠ '\n')]
        · split
          · exact htoLine
          · exact .inl rfl

/-! ## Parts of a string -/

theorem withReturns_head (c : Char) (rest : List Char) : ∃ d tail,
    withReturns (c :: rest) = d :: tail ∧ ∀ a, a ≠ '\r' → a ≠ '\n' → (d = a ↔ c = a) := by
  by_cases hc : c = '\n'
  · refine ⟨'\r', _, by rw [hc, withReturns_newline], fun a hreturn hnewline => ?_⟩
    simp [hc, Ne.symm hreturn, Ne.symm hnewline]
  · exact ⟨c, _, withReturns_cons hc rest, fun _ _ _ => Iff.rfl⟩

/-- Outside raw strings two characters decide, and neither end of line counts as a second one. -/
theorem StringPart.read_withReturns_pair {kind : StringKind} (hkind : ∀ d q, kind ≠ .raw d q)
    {c : Char} (hc : c ≠ '\n') (rest : List Char) :
    StringPart.read kind (c :: withReturns rest) = StringPart.read kind (c :: rest) := by
  cases rest with
  | nil => rfl
  | cons d rest =>
    obtain ⟨e, tail, htail, he⟩ := withReturns_head d rest
    have hquote := he '"' (by decide) (by decide)
    have hopen := he '\x7b' (by decide) (by decide)
    have hclose := he '\x7d' (by decide) (by decide)
    rw [htail]
    -- a brace or a quote is the only second character that counts
    have hpair : ∀ {a : Char}, (e = a ↔ d = a) → (e = a ∧ d = a) ∨ (e ≠ a ∧ d ≠ a) := by
      intro a hiff
      by_cases hd : d = a <;> simp [hiff, hd]
    cases kind with
    | raw d q => exact absurd rfl (hkind d q)
    | regular =>
      by_cases hc₁ : c = '\x7b'
      · rcases hpair hopen with hed | hed <;> simp [StringPart.read, hc₁, hed]
      by_cases hc₂ : c = '\x7d'
      · rcases hpair hclose with hed | hed <;> simp [StringPart.read, hc₂, hed]
      by_cases hc₃ : c = '\\'
      · simp [StringPart.read, hc₃]
      by_cases hc₄ : c = '"' <;> simp [StringPart.read, hc, hc₁, hc₂, hc₃, hc₄]
    | verbatim =>
      by_cases hc₁ : c = '\x7b'
      · rcases hpair hopen with hed | hed <;> simp [StringPart.read, hc₁, hed]
      by_cases hc₂ : c = '\x7d'
      · rcases hpair hclose with hed | hed <;> simp [StringPart.read, hc₂, hed]
      by_cases hc₃ : c = '"'
      · rcases hpair hquote with hed | hed <;> simp [StringPart.read, hc₃, hed]
      simp [StringPart.read, hc₁, hc₂, hc₃]

/-- Up to a newline the same parts are read. -/
theorem StringPart.read_withReturns (kind : StringKind) {cs : List Char}
    (h : cs.head? ≠ some '\n') :
    StringPart.read kind (withReturns cs) = StringPart.read kind cs := by
  cases cs with
  | nil => rfl
  | cons c rest =>
    have hc : c ≠ '\n' := by simpa using h
    cases kind with
    | raw dollars quotes =>
      have hquotes := runLength_withReturns (a := '"') (by decide) (by decide) (c :: rest)
      have hbraces := runLength_withReturns (a := '\x7b') (by decide) (by decide) (c :: rest)
      rw [withReturns_cons hc] at hquotes hbraces ⊢
      simp only [StringPart.read, hquotes, hbraces]
    | regular =>
      rw [withReturns_cons hc]
      exact StringPart.read_withReturns_pair (by simp) hc rest
    | verbatim =>
      rw [withReturns_cons hc]
      exact StringPart.read_withReturns_pair (by simp) hc rest

theorem StringPart.read_at_return (kind : StringKind) (rest : List Char) :
    StringPart.read kind ('\r' :: rest) = .text 1 := by
  cases kind <;> simp [StringPart.read]

theorem StringPart.read_at_newline (kind : StringKind) (rest : List Char) :
    StringPart.read kind ('\n' :: rest) = if kind = .regular then .broken else .text 1 := by
  cases kind <;> simp [StringPart.read]

theorem StringPart.stretch_ofRun {a : Char} (ha : a ≠ '\n') {cs : List Char} {needed n : Nat}
    {part : StringPart} (hpart : ∀ m, part ≠ .text m)
    (h : StringPart.ofRun (runLength a cs) needed part = .text n) : stretch cs n = n := by
  unfold ofRun at h
  split at h
  · cases h
    exact stretch_run ha (Nat.le_refl _)
  · split at h
    · exact absurd h (hpart n)
    · cases h
      exact stretch_run ha (Nat.sub_le _ _)

/-- A piece of text that does not begin with a newline has none. -/
theorem StringPart.stretch_text {kind : StringKind} {cs : List Char} {n : Nat}
    (h : PlainEnds cs) (hcs : cs.head? ≠ some '\n')
    (hread : StringPart.read kind cs = .text n) : stretch cs n = n := by
  obtain ⟨c, rest, rfl⟩ : ∃ c rest, cs = c :: rest := by
    cases cs with
    | nil => simp [StringPart.read] at hread
    | cons c rest => exact ⟨c, rest, rfl⟩
  have hc : c ≠ '\n' := by simpa using hcs
  have hone : stretch (c :: rest) 1 = 1 := by simp [stretch_cons hc]
  have htwo : ∀ {d : Char} {tail : List Char}, d ≠ '\n' → rest = d :: tail →
      stretch (c :: rest) 2 = 2 := by
    rintro d tail hd rfl
    simp [stretch_cons hc, stretch_cons hd]
  unfold StringPart.read at hread
  split at hread
  · cases ‹c :: rest = []›
  · cases hread
  · obtain ⟨rfl, hrest⟩ := List.cons.inj ‹_›
    cases hread
    exact htwo (hrest ▸ h).ne_newline hrest
  · cases hread
  · obtain ⟨rfl, hrest⟩ := List.cons.inj ‹_›
    cases hread
    exact htwo (by decide) hrest
  · obtain ⟨rfl, rfl⟩ := List.cons.inj ‹_›
    split at hread
    · exact stretch_ofRun (by decide) (by simp) hread
    · split at hread
      · exact stretch_ofRun (by decide) (by simp) hread
      · cases hread
        exact hone
  · cases hread
  · obtain ⟨rfl, hrest⟩ := List.cons.inj ‹_›
    cases hread
    exact htwo (by decide) hrest
  · obtain ⟨rfl, hrest⟩ := List.cons.inj ‹_›
    cases hread
    exact htwo (by decide) hrest
  · cases hread
  · cases hread
    exact hone

end InterpolationLint
