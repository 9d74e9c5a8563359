import InterpolationLint.Proofs.Scan.Budget
import InterpolationLint.Proofs.Text.Location

/-!
# A further line

What the scanner makes of a text does not depend on the lines behind it. No lexeme but blanks goes
over the end of a line unless it is closed later, so that a text that is scanned to its end is
scanned in the same way when a newline and more text follow.
-/

namespace InterpolationLint

variable (t : List Char)

/-! ## Looking ahead -/

theorem runLength_newline {c : Char} (hc : c ≠ '\n') (cs : List Char) :
    runLength c (cs ++ '\n' :: t) = runLength c cs := by
  unfold runLength
  rw [takeWhile_append_cons (by simpa using hc.symm)]

theorem restOfLine_newline (cs : List Char) : restOfLine (cs ++ '\n' :: t) = restOfLine cs := by
  unfold restOfLine
  rw [takeWhile_append_cons (by decide)]

theorem isPrefixOf_newline : ∀ {word : List Char}, '\n' ∉ word → ∀ cs : List Char,
    word.isPrefixOf (cs ++ '\n' :: t) = word.isPrefixOf cs
  | [], _, _ => by simp
  | w :: word, hword, [] => by
    have hw : w ≠ '\n' := fun h => hword (h ▸ List.mem_cons_self)
    simp [List.isPrefixOf, hw]
  | w :: word, hword, c :: cs => by
    have ih := isPrefixOf_newline (fun h => hword (List.mem_cons_of_mem w h)) cs
    simp only [List.cons_append, List.isPrefixOf, ih]

theorem head?_newline {c : Char} (hc : c ≠ '\n') (cs : List Char) :
    (cs ++ '\n' :: t).head? = some c ↔ cs.head? = some c := by
  cases cs with
  | nil => simp [hc.symm]
  | cons d cs => simp

theorem eq_cons_of_newline {c : Char} (hc : c ≠ '\n') {cs rest : List Char}
    (h : cs ++ '\n' :: t = c :: rest) : ∃ rest', cs = c :: rest' := by
  apply List.head?_eq_some_iff.mp
  apply (head?_newline t hc cs).mp
  rw [h, List.head?_cons]

theorem isPrefixOf_eq_false {word cs : List Char} (h : ∀ rest, cs = word ++ rest → False) :
    word.isPrefixOf cs = false := by
  rw [← Bool.not_eq_true, List.isPrefixOf_iff_prefix]
  rintro ⟨rest, rfl⟩
  exact h rest rfl

theorem atScopeQualifier_eq (cs : List Char) : atScopeQualifier cs = [':', ':'].isPrefixOf cs := by
  unfold atScopeQualifier
  split
  · simp
  · rename_i hne
    rw [isPrefixOf_eq_false hne]

theorem atScopeQualifier_newline (cs : List Char) :
    atScopeQualifier (cs ++ '\n' :: t) = atScopeQualifier cs := by
  rw [atScopeQualifier_eq, atScopeQualifier_eq, isPrefixOf_newline t (by decide)]

/-! ## Openings -/

theorem opening?_eq (cs : List Char) : opening? cs =
    if ['$', '@', '"'].isPrefixOf cs || ['@', '$', '"'].isPrefixOf cs then some (.verbatim, 3)
    else if runLength '$' cs = 0 then none
    else if 3 ≤ runLength '"' (cs.drop (runLength '$' cs)) then
      some (.raw (runLength '$' cs) (runLength '"' (cs.drop (runLength '$' cs))),
        runLength '$' cs + runLength '"' (cs.drop (runLength '$' cs)))
    else if runLength '$' cs = 1 ∧ 1 ≤ runLength '"' (cs.drop (runLength '$' cs)) then
      some (.regular, 2)
    else none := by
  unfold opening?
  split
  · simp
  · simp
  · rename_i h₁ h₂
    rw [isPrefixOf_eq_false h₁, isPrefixOf_eq_false h₂]
    rfl

theorem opening?_newline (cs : List Char) : opening? (cs ++ '\n' :: t) = opening? cs := by
  have hle := runLength_le '$' cs
  rw [opening?_eq, opening?_eq, isPrefixOf_newline t (by decide), isPrefixOf_newline t (by decide),
    runLength_newline t (by decide), List.drop_append_of_le_length hle,
    runLength_newline t (by decide)]

theorem startsItem_eq (cs : List Char) : startsItem cs =
    (['"'].isPrefixOf cs || ['\''].isPrefixOf cs || ['/', '/'].isPrefixOf cs ||
      ['/', '*'].isPrefixOf cs || ['@', '"'].isPrefixOf cs || (opening? cs).isSome) := by
  unfold startsItem
  split
  · simp
  · simp
  · simp
  · simp
  · simp
  · rename_i h₁ h₂ h₃ h₄ h₅
    rw [isPrefixOf_eq_false h₁, isPrefixOf_eq_false h₂, isPrefixOf_eq_false h₃,
      isPrefixOf_eq_false h₄, isPrefixOf_eq_false h₅]
    rfl

theorem startsItem_newline (cs : List Char) : startsItem (cs ++ '\n' :: t) = startsItem cs := by
  simp only [startsItem_eq, opening?_newline]
  rw [isPrefixOf_newline t (by decide), isPrefixOf_newline t (by decide),
    isPrefixOf_newline t (by decide), isPrefixOf_newline t (by decide),
    isPrefixOf_newline t (by decide)]

/-! ## Lengths -/

theorem codeTail_newline (stops cs : List Char) :
    codeTail stops (cs ++ '\n' :: t) = codeTail stops cs := by
  have hcolons : ∀ {c : Char} {rest : List Char}, (∀ rest', c = ':' → rest = ':' :: rest' → False) →
      ∀ rest', c = ':' → rest ++ '\n' :: t = ':' :: rest' → False := by
    intro c rest hne rest' hc hrest
    obtain ⟨rest'', h⟩ := eq_cons_of_newline t (by decide) hrest
    exact hne rest'' hc h
  fun_induction codeTail stops cs with
  | case1 =>
    rw [List.nil_append, codeTail]
    · simp [show isBlank '\n' = true by decide]
    · simp
  | case2 rest ih => simp only [List.cons_append, codeTail, ih]
  | case3 c rest hne hstop =>
    rw [List.cons_append, codeTail.eq_3 _ _ _ (hcolons hne), ← List.cons_append, startsItem_newline,
      if_pos hstop]
  | case4 c rest hne hstop ih =>
    rw [List.cons_append, codeTail.eq_3 _ _ _ (hcolons hne), ← List.cons_append, startsItem_newline,
      if_neg hstop, ih]

theorem codeLength_newline (stops : List Char) (c : Char) (rest : List Char) :
    codeLength stops (c :: rest ++ '\n' :: t) = codeLength stops (c :: rest) := by
  unfold codeLength
  rw [atScopeQualifier_newline]
  dsimp only
  split
  · rename_i hqualifier
    rw [atScopeQualifier_eq, List.isPrefixOf_iff_prefix] at hqualifier
    have hle : 2 ≤ (c :: rest).length := hqualifier.length_le
    rw [List.drop_append_of_le_length hle, codeTail_newline]
  · rw [List.drop_append_of_le_length (by simp), codeTail_newline]

theorem numberLength_newline (cs : List Char) :
    numberLength (cs ++ '\n' :: t) = numberLength cs := by
  have hdigit : ∀ cs : List Char,
      (cs ++ '\n' :: t).head?.any Char.isDigit = cs.head?.any Char.isDigit := by
    intro cs
    cases cs <;> rfl
  fun_induction numberLength cs with
  | case1 => rfl
  | case2 c rest h ih => rw [List.cons_append, numberLength, hdigit, if_pos h, ih]
  | case3 c rest h => rw [List.cons_append, numberLength, hdigit, if_neg h]

/-! A reader that finds what closes its literal does not look behind it. -/

theorem quotedTail_newline {quote : Char} {cs : List Char} {n : Nat}
    (h : quotedTail quote cs = some n) : quotedTail quote (cs ++ '\n' :: t) = some n := by
  have hplain : ∀ {c : Char} {rest : List Char}, (c = '\\' → rest = [] → False) →
      (∀ d rest', c = '\\' → rest = d :: rest' → False) → c ≠ '\\' := by
    rintro c rest h₁ h₂ rfl
    cases rest with
    | nil => exact h₁ rfl rfl
    | cons d rest => exact h₂ d rest rfl rfl
  fun_induction quotedTail quote cs generalizing n with
  | case1 => cases h
  | case2 => cases h
  | case3 c rest ih =>
    obtain ⟨m, hm, rfl⟩ := Option.map_eq_some_iff.mp h
    simp only [List.cons_append, quotedTail, ih hm, Option.map_some]
  | case4 => cases h
  | case5 rest h₁ h₂ hnewline =>
    have hc := hplain h₁ h₂
    rw [List.cons_append, quotedTail]
    · simpa [hnewline] using h
    · exact fun h _ => hc h
    · exact fun _ _ h _ => hc h
  | case6 c rest h₁ h₂ hnewline hquote ih =>
    have hc := hplain h₁ h₂
    obtain ⟨m, hm, rfl⟩ := Option.map_eq_some_iff.mp h
    rw [List.cons_append, quotedTail]
    · simp [hnewline, hquote, ih hm]
    · exact fun h _ => hc h
    · exact fun _ _ h _ => hc h

theorem verbatimTail_newline {cs : List Char} {n : Nat} (h : verbatimTail cs = some n) :
    verbatimTail (cs ++ '\n' :: t) = some n := by
  fun_induction verbatimTail cs generalizing n with
  | case1 => cases h
  | case2 rest ih =>
    obtain ⟨m, hm, rfl⟩ := Option.map_eq_some_iff.mp h
    simp only [List.cons_append, verbatimTail, ih hm, Option.map_some]
  | case3 rest hne =>
    rw [List.cons_append, verbatimTail]
    · exact h
    · intro rest' hrest
      obtain ⟨rest'', h⟩ := eq_cons_of_newline t (by decide) hrest
      exact hne rest'' h
  | case4 c rest h₁ h₂ ih =>
    obtain ⟨m, hm, rfl⟩ := Option.map_eq_some_iff.mp h
    rw [List.cons_append, verbatimTail]
    · rw [ih hm]
      rfl
    · exact fun _ hc _ => h₂ hc
    · exact h₂

theorem rawTail_newline {quotes run : Nat} {cs : List Char} {n : Nat}
    (h : rawTail quotes run cs = some n) : rawTail quotes run (cs ++ '\n' :: t) = some n := by
  fun_induction rawTail quotes run cs generalizing n with
  | case1 run hrun =>
    -- a run of quotes is closed by the end of the text and by a newline alike
    rw [List.nil_append, rawTail, if_pos hrun]
    · exact h
    · decide
  | case2 => cases h
  | case3 run rest ih =>
    obtain ⟨m, hm, rfl⟩ := Option.map_eq_some_iff.mp h
    rw [List.cons_append, rawTail, ih hm]
    rfl
  | case4 run c rest hc hrun =>
    rw [List.cons_append, rawTail, if_pos hrun]
    · exact h
    · exact hc
  | case5 run c rest hc hrun ih =>
    obtain ⟨m, hm, rfl⟩ := Option.map_eq_some_iff.mp h
    rw [List.cons_append, rawTail, if_neg hrun, ih hm]
    · rfl
    · exact hc

theorem blockCommentTail_newline {cs : List Char} {n : Nat} (h : blockCommentTail cs = some n) :
    blockCommentTail (cs ++ '\n' :: t) = some n := by
  fun_induction blockCommentTail cs generalizing n with
  | case1 => cases h
  | case2 rest => exact h
  | case3 c rest hne ih =>
    obtain ⟨m, hm, rfl⟩ := Option.map_eq_some_iff.mp h
    rw [List.cons_append, blockCommentTail, ih hm]
    · rfl
    · intro rest' hc hrest
      obtain ⟨rest'', h⟩ := eq_cons_of_newline t (by decide) hrest
      exact hne rest'' hc h

theorem stringLength_newline {cs : List Char} {n : Nat} (h : stringLength cs = some n) :
    stringLength (cs ++ '\n' :: t) = some n := by
  have hle := (stringLength_le h).1
  have hlength := (stringLength_le h).2
  unfold stringLength at h ⊢
  dsimp only at h ⊢
  rw [runLength_newline t (by decide)]
  split at h
  · obtain ⟨m, hm, rfl⟩ := Option.map_eq_some_iff.mp h
    rw [if_pos ‹_›, List.drop_append_of_le_length (runLength_le _ _), rawTail_newline t hm]
    rfl
  · obtain ⟨m, hm, rfl⟩ := Option.map_eq_some_iff.mp h
    rw [if_neg ‹_›, List.drop_append_of_le_length (by omega), quotedTail_newline t hm]
    rfl

/-! ## Lexemes -/

theorem Lexeme.ofLiteral?_mono {length? length?' : Option Nat} {lexeme : Lexeme}
    (h : Lexeme.ofLiteral? length? = lexeme) (hbroken : ∀ problem, lexeme ≠ .broken problem)
    (hmono : ∀ n, length? = some n → length?' = some n) :
    Lexeme.ofLiteral? length?' = lexeme := by
  subst h
  cases length? with
  | none => exact absurd rfl (hbroken _)
  | some n => rw [hmono n rfl]

theorem Lexeme.ofItem_newline {stops : List Char} {c : Char} {rest : List Char} {lexeme : Lexeme}
    (h : Lexeme.ofItem stops (c :: rest) = lexeme)
    (hbroken : ∀ problem, lexeme ≠ .broken problem) :
    Lexeme.ofItem stops (c :: rest ++ '\n' :: t) = lexeme := by
  unfold ofItem at h ⊢
  rw [opening?_newline]
  split at h
  · exact h
  · split at h
    · cases ‹c :: rest = []›
    · rename_i heq
      cases heq
      exact ofLiteral?_mono h hbroken fun n => stringLength_newline t
    · rename_i heq
      cases heq
      refine ofLiteral?_mono h hbroken fun n hn => ?_
      obtain ⟨m, hm, rfl⟩ := Option.map_eq_some_iff.mp hn
      exact congrArg (Option.map (· + 2)) (verbatimTail_newline t hm)
    · rename_i heq
      cases heq
      refine ofLiteral?_mono h hbroken fun n hn => ?_
      obtain ⟨m, hm, rfl⟩ := Option.map_eq_some_iff.mp hn
      exact congrArg (Option.map (· + 1)) (quotedTail_newline t hm)
    · rename_i d tail hquote hat hapostrophe heq
      cases heq
      rw [numberLength_newline, codeLength_newline, List.cons_append]
      split
      · cases ‹_ :: _ = []›
      · rename_i heq
        cases heq
        exact (hquote rfl).elim
      · rename_i heq
        obtain ⟨hc, hrest⟩ := List.cons.inj heq
        obtain ⟨rest', hrest'⟩ := eq_cons_of_newline t (by decide) hrest
        exact (hat rest' hc hrest').elim
      · rename_i heq
        cases heq
        exact (hapostrophe rfl).elim
      · rename_i heq
        cases heq
        exact h

theorem Lexeme.read_newline {stops : List Char} {lineStart : Bool} {c : Char} {rest : List Char}
    {lexeme : Lexeme} (h : Lexeme.read stops lineStart (c :: rest) = lexeme)
    (hblank : isBlank c = false) (hbroken : ∀ problem, lexeme ≠ .broken problem) :
    Lexeme.read stops lineStart (c :: rest ++ '\n' :: t) = lexeme := by
  have hnext : ∀ {a : Char}, a ≠ '\n' →
      ((rest ++ '\n' :: t).head? == some a) = (rest.head? == some a) := by
    intro a ha
    rw [Bool.eq_iff_iff, beq_iff_eq, beq_iff_eq]
    exact head?_newline t ha rest
  simp only [read] at h
  simp only [read, List.cons_append]
  rw [← List.cons_append, atScopeQualifier_newline, restOfLine_newline, hnext (by decide),
    hnext (by decide)]
  simp only [hblank, Bool.false_eq_true, ite_false] at h ⊢
  split at h
  · rw [if_pos ‹_›]
    exact h
  rw [if_neg ‹_›]
  split at h
  · rw [if_pos ‹_›]
    exact h
  rw [if_neg ‹_›]
  split at h
  · rename_i hstar
    rw [if_pos hstar]
    simp only [Bool.and_eq_true, beq_iff_eq] at hstar
    obtain ⟨rest', rfl⟩ := List.head?_eq_some_iff.mp hstar.2
    split at h
    · rename_i n hn
      rw [List.tail_cons] at hn
      rw [List.cons_append, List.tail_cons, blockCommentTail_newline t hn]
      exact h
    · exact absurd h.symm (hbroken _)
  rw [if_neg ‹_›]
  split at h
  · rw [if_pos ‹_›]
    exact h
  rw [if_neg ‹_›]
  exact ofItem_newline t h hbroken

/-! ## Parts of a string -/

/-- Outside raw strings two characters decide, and a newline counts as no second one. -/
theorem StringPart.read_pair {kind : StringKind} (hkind : ∀ d q, kind ≠ .raw d q) (c : Char)
    (rest : List Char) (h : StringPart.read kind (c :: rest) ≠ .broken) :
    StringPart.read kind (c :: rest ++ '\n' :: t) = StringPart.read kind (c :: rest) := by
  cases kind with
  | raw d q => exact absurd rfl (hkind d q)
  | regular =>
    by_cases hbackslash : c = '\\'
    · subst hbackslash
      cases rest with
      | nil => exact absurd rfl h
      | cons d rest => rfl
    by_cases hnewline : c = '\n'
    · subst hnewline
      simp [StringPart.read] at h
    by_cases hquote : c = '"'
    · simp [StringPart.read, hquote]
    by_cases hopen : c = '\x7b'
    · subst hopen
      cases rest with
      | nil => rfl
      | cons d rest => by_cases hd : d = '\x7b' <;> simp [StringPart.read, hd]
    by_cases hclose : c = '\x7d'
    · subst hclose
      cases rest with
      | nil => simp [StringPart.read]
      | cons d rest => by_cases hd : d = '\x7d' <;> simp [StringPart.read, hd]
    simp [StringPart.read, hbackslash, hnewline, hopen, hclose]
  | verbatim =>
    by_cases hquote : c = '"'
    · subst hquote
      cases rest with
      | nil => rfl
      | cons d rest => by_cases hd : d = '"' <;> simp [StringPart.read, hd]
    by_cases hopen : c = '\x7b'
    · subst hopen
      cases rest with
      | nil => rfl
      | cons d rest => by_cases hd : d = '\x7b' <;> simp [StringPart.read, hd]
    by_cases hclose : c = '\x7d'
    · subst hclose
      cases rest with
      | nil => simp [StringPart.read]
      | cons d rest => by_cases hd : d = '\x7d' <;> simp [StringPart.read, hd]
    simp [StringPart.read, hquote, hopen, hclose]

theorem StringPart.read_newline {kind : StringKind} {cs : List Char} {part : StringPart}
    (h : StringPart.read kind cs = part) (hbroken : part ≠ .broken) :
    StringPart.read kind (cs ++ '\n' :: t) = part := by
  subst h
  cases cs with
  | nil => cases kind <;> exact absurd rfl hbroken
  | cons c rest =>
    cases kind with
    | raw d q =>
      simp only [StringPart.read, List.cons_append]
      rw [← List.cons_append, runLength_newline t (by decide), runLength_newline t (by decide)]
    | regular => exact StringPart.read_pair t (by simp) c rest hbroken
    | verbatim => exact StringPart.read_pair t (by simp) c rest hbroken

end InterpolationLint
