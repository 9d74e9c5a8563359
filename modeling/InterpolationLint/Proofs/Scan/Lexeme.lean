import InterpolationLint.Scan.StringText

/-!
# What a lexeme says of its characters

Every lexeme takes at least one character and no more than there are, so that the scanner moves on
and stays in its text. `Lexeme.fits_read` and `StringPart.fits_read` say so for the two readers, with
what is known of the characters at brackets, markers, holes and closing quotes.
-/

namespace InterpolationLint

/-! ## Runs of one character -/

theorem runLength_le (c : Char) (cs : List Char) : runLength c cs ≤ cs.length :=
  (List.takeWhile_prefix _).length_le

theorem runLength_cons_self (c : Char) (cs : List Char) :
    runLength c (c :: cs) = runLength c cs + 1 := by
  simp [runLength]

theorem runLength_cons_of_ne {c d : Char} (h : d ≠ c) (cs : List Char) :
    runLength c (d :: cs) = 0 := by
  simp [runLength, h]

theorem runLength_eq_zero_or (c : Char) (cs : List Char) :
    runLength c cs = 0 ∨ ∃ rest, cs = c :: rest := by
  cases cs with
  | nil => exact .inl rfl
  | cons d rest =>
    by_cases h : d = c
    · exact .inr ⟨rest, by rw [h]⟩
    · exact .inl (runLength_cons_of_ne h rest)

theorem runLength_eq_zero {c : Char} {cs : List Char} (h : cs.head? ≠ some c) :
    runLength c cs = 0 := by
  rcases runLength_eq_zero_or c cs with hz | ⟨rest, rfl⟩
  · exact hz
  · exact absurd rfl h

theorem runLength_replicate_append (c : Char) {cs : List Char} (h : cs.head? ≠ some c) :
    ∀ n, runLength c (List.replicate n c ++ cs) = n
  | 0 => runLength_eq_zero h
  | n + 1 => by
    rw [List.replicate_succ, List.cons_append, runLength_cons_self,
      runLength_replicate_append c h n]

theorem le_runLength_replicate_append (c : Char) (cs : List Char) :
    ∀ n, n ≤ runLength c (List.replicate n c ++ cs)
  | 0 => Nat.zero_le _
  | n + 1 => by
    rw [List.replicate_succ, List.cons_append, runLength_cons_self]
    exact Nat.succ_le_succ (le_runLength_replicate_append c cs n)

theorem head?_replicate_append {n : Nat} (hn : 1 ≤ n) (c : Char) (cs : List Char) :
    (List.replicate n c ++ cs).head? = some c := by
  obtain ⟨n, rfl⟩ := Nat.exists_eq_add_of_le' hn
  rw [List.replicate_succ, List.cons_append, List.head?_cons]

theorem eq_replicate_append (c : Char) (cs : List Char) :
    cs = List.replicate (runLength c cs) c ++ cs.drop (runLength c cs) := by
  induction cs with
  | nil => rfl
  | cons d cs ih =>
    by_cases hd : d = c
    · subst hd
      rw [runLength_cons_self, List.replicate_succ, List.cons_append, List.drop_succ_cons, ← ih]
    · simp [runLength_cons_of_ne hd]

/-! ## Lengths -/

theorem blockCommentTail_le {cs : List Char} {n : Nat} (h : blockCommentTail cs = some n) :
    n ≤ cs.length := by
  fun_induction blockCommentTail cs generalizing n with
  | case1 => cases h
  | case2 rest =>
    cases h
    simp
  | case3 c rest _ ih =>
    obtain ⟨m, hm, rfl⟩ := Option.map_eq_some_iff.mp h
    exact Nat.succ_le_succ (ih hm)

theorem quotedTail_le {quote : Char} {cs : List Char} {n : Nat}
    (h : quotedTail quote cs = some n) : 1 ≤ n ∧ n ≤ cs.length := by
  fun_induction quotedTail quote cs generalizing n with
  | case1 => cases h
  | case2 => cases h
  | case3 c rest ih =>
    obtain ⟨m, hm, rfl⟩ := Option.map_eq_some_iff.mp h
    have := ih hm
    simp only [List.length_cons]
    omega
  | case4 => cases h
  | case5 =>
    cases h
    simp
  | case6 c rest _ _ _ _ ih =>
    obtain ⟨m, hm, rfl⟩ := Option.map_eq_some_iff.mp h
    have := ih hm
    simp only [List.length_cons]
    omega

theorem verbatimTail_le {cs : List Char} {n : Nat} (h : verbatimTail cs = some n) :
    n ≤ cs.length := by
  fun_induction verbatimTail cs generalizing n with
  | case1 => cases h
  | case2 rest ih =>
    obtain ⟨m, hm, rfl⟩ := Option.map_eq_some_iff.mp h
    exact Nat.add_le_add_right (ih hm) 2
  | case3 =>
    cases h
    simp
  | case4 c rest _ _ ih =>
    obtain ⟨m, hm, rfl⟩ := Option.map_eq_some_iff.mp h
    exact Nat.succ_le_succ (ih hm)

theorem rawTail_le {quotes run : Nat} {cs : List Char} {n : Nat}
    (h : rawTail quotes run cs = some n) : n ≤ cs.length := by
  fun_induction rawTail quotes run cs generalizing n with
  | case1 =>
    cases h
    exact Nat.zero_le _
  | case2 => cases h
  | case3 run rest ih =>
    obtain ⟨m, hm, rfl⟩ := Option.map_eq_some_iff.mp h
    exact Nat.succ_le_succ (ih hm)
  | case4 =>
    cases h
    exact Nat.zero_le _
  | case5 run c rest _ _ ih =>
    obtain ⟨m, hm, rfl⟩ := Option.map_eq_some_iff.mp h
    exact Nat.succ_le_succ (ih hm)

theorem stringLength_le {cs : List Char} {n : Nat} (h : stringLength cs = some n) :
    1 ≤ n ∧ n ≤ cs.length := by
  unfold stringLength at h
  have hrun := runLength_le '"' cs
  dsimp only at h
  split at h
  · obtain ⟨m, hm, rfl⟩ := Option.map_eq_some_iff.mp h
    have := rawTail_le hm
    rw [List.length_drop] at this
    omega
  · obtain ⟨m, hm, rfl⟩ := Option.map_eq_some_iff.mp h
    have := quotedTail_le hm
    rw [List.length_drop] at this
    omega

theorem numberLength_le (cs : List Char) : numberLength cs ≤ cs.length := by
  fun_induction numberLength cs with
  | case1 => exact Nat.le_refl _
  | case2 c rest _ ih => exact Nat.succ_le_succ ih
  | case3 => exact Nat.zero_le _

theorem codeTail_le (stops cs : List Char) : codeTail stops cs ≤ cs.length := by
  fun_induction codeTail stops cs with
  | case1 => exact Nat.le_refl _
  | case2 rest ih => exact Nat.add_le_add_right ih 2
  | case3 => exact Nat.zero_le _
  | case4 c rest _ _ ih => exact Nat.succ_le_succ ih

/-- A run of code begins with two colons or with any one character. -/
theorem codeLength_cases (stops cs : List Char) :
    (∃ rest, cs = ':' :: ':' :: rest ∧ codeLength stops cs = codeTail stops rest + 2) ∨
      codeLength stops cs = codeTail stops (cs.drop 1) + 1 := by
  unfold codeLength
  by_cases hqualifier : atScopeQualifier cs
  · unfold atScopeQualifier at hqualifier
    split at hqualifier
    · exact .inl ⟨_, rfl, rfl⟩
    · cases hqualifier
  · rw [if_neg hqualifier]
    exact .inr rfl

theorem codeLength_le (stops : List Char) (c : Char) (rest : List Char) :
    1 ≤ codeLength stops (c :: rest) ∧ codeLength stops (c :: rest) ≤ (c :: rest).length := by
  rcases codeLength_cases stops (c :: rest) with ⟨rest', hcs, hlength⟩ | hlength
  · have := codeTail_le stops rest'
    rw [hlength, hcs, List.length_cons, List.length_cons]
    omega
  · have := codeTail_le stops rest
    rw [hlength, List.drop_succ_cons, List.drop_zero, List.length_cons]
    omega

/-! ## Opening markers -/

/-- The marker of a string: `$@"` or `@$"`, dollars and at least three quotes, or `$"`. -/
theorem opening?_cases {cs : List Char} {kind : StringKind} {marker : Nat}
    (h : opening? cs = some (kind, marker)) :
    (kind = .verbatim ∧ marker = 3 ∧
      ∃ rest, cs = '$' :: '@' :: '"' :: rest ∨ cs = '@' :: '$' :: '"' :: rest) ∨
    (∃ dollars quotes, kind = .raw dollars quotes ∧ marker = dollars + quotes ∧
      1 ≤ dollars ∧ 3 ≤ quotes ∧
      dollars = runLength '$' cs ∧ quotes = runLength '"' (cs.drop dollars)) ∨
    (kind = .regular ∧ marker = 2 ∧ ∃ rest, cs = '$' :: '"' :: rest) := by
  unfold opening? at h
  split at h
  · obtain ⟨rfl, rfl⟩ := Prod.mk.inj (Option.some.inj h)
    exact .inl ⟨rfl, rfl, _, .inl rfl⟩
  · obtain ⟨rfl, rfl⟩ := Prod.mk.inj (Option.some.inj h)
    exact .inl ⟨rfl, rfl, _, .inr rfl⟩
  · dsimp only at h
    split at h
    · cases h
    · split at h
      · obtain ⟨rfl, rfl⟩ := Prod.mk.inj (Option.some.inj h)
        exact .inr (.inl ⟨_, _, rfl, rfl, by omega, ‹_›, rfl, rfl⟩)
      · split at h
        · rename_i hone
          obtain ⟨rfl, rfl⟩ := Prod.mk.inj (Option.some.inj h)
          refine .inr (.inr ⟨rfl, rfl, ?_⟩)
          rw [hone.1] at hone
          rcases runLength_eq_zero_or '$' cs with hz | ⟨rest, rfl⟩
          · omega
          · rcases runLength_eq_zero_or '"' rest with hz | ⟨rest', rfl⟩
            · simp only [List.drop_succ_cons, List.drop_zero] at hone
              omega
            · exact ⟨rest', rfl⟩
        · cases h

theorem marker_le {cs : List Char} {kind : StringKind} {marker : Nat}
    (h : opening? cs = some (kind, marker)) : 2 ≤ marker ∧ marker ≤ cs.length := by
  rcases opening?_cases h with ⟨-, rfl, rest, rfl | rfl⟩ |
    ⟨dollars, quotes, -, rfl, hd, hq, hdollars, hquotes⟩ | ⟨-, rfl, rest, rfl⟩
  · simp
  · simp
  · have h₁ := runLength_le '$' cs
    have h₂ := runLength_le '"' (cs.drop dollars)
    rw [List.length_drop] at h₂
    omega
  · simp

/-! ## Lexemes of code -/

/-- Where no literal with quotes and no string begins, the first character decides. -/
theorem Lexeme.ofItem_of_no_string {stops : List Char} {c : Char} {rest : List Char}
    (hquote : c ≠ '"') (hapostrophe : c ≠ '\'') (hat : ¬ (c = '@' ∧ rest.head? = some '"'))
    (hnone : opening? (c :: rest) = none) : Lexeme.ofItem stops (c :: rest) =
      match bracket? c with
      | some (delimiter, close) => .opening delimiter c close
      | none =>
        if c.isDigit then .literal (numberLength (c :: rest))
        else if isClosing c then .broken (.unbalanced c)
        else .code (codeLength stops (c :: rest)) := by
  simp only [ofItem, hnone]
  split
  · cases ‹c :: rest = []›
  · exact absurd (List.cons.inj ‹_›).1 hquote
  · obtain ⟨hc, rfl⟩ := List.cons.inj ‹_›
    exact absurd ⟨hc, rfl⟩ hat
  · exact absurd (List.cons.inj ‹_›).1 hapostrophe
  · obtain ⟨rfl, rfl⟩ := List.cons.inj ‹_›
    rfl

def Lexeme.Fits (cs : List Char) : Lexeme → Prop
  | .stop => True
  | .trivia length => 1 ≤ length ∧ length ≤ cs.length
  | .literal length => 1 ≤ length ∧ length ≤ cs.length
  | .code length => 1 ≤ length ∧ length ≤ cs.length
  | .opening delimiter bracket close =>
    cs.head? = some bracket ∧ bracket? bracket = some (delimiter, close)
  | .string kind marker => opening? cs = some (kind, marker)
  | .broken _ => True

theorem Lexeme.fits_ofLiteral? {cs : List Char} {length? : Option Nat}
    (h : ∀ n, length? = some n → 1 ≤ n ∧ n ≤ cs.length) : (Lexeme.ofLiteral? length?).Fits cs := by
  cases length? with
  | none => trivial
  | some n => exact h n rfl

theorem numberLength_pos {c : Char} (hc : c.isDigit = true) (rest : List Char) :
    1 ≤ numberLength (c :: rest) := by
  simp [numberLength, Char.isAlphanum, hc]

theorem Lexeme.fits_ofItem (stops cs : List Char) : (Lexeme.ofItem stops cs).Fits cs := by
  unfold Lexeme.ofItem
  split
  · assumption
  · split
    · trivial
    · exact fits_ofLiteral? fun n hn => stringLength_le hn
    · refine fits_ofLiteral? fun n hn => ?_
      obtain ⟨m, hm, rfl⟩ := Option.map_eq_some_iff.mp hn
      have := verbatimTail_le hm
      simp only [List.length_cons]
      omega
    · refine fits_ofLiteral? fun n hn => ?_
      obtain ⟨m, hm, rfl⟩ := Option.map_eq_some_iff.mp hn
      have := quotedTail_le hm
      simp only [List.length_cons]
      omega
    · split
      · exact ⟨rfl, ‹_›⟩
      · split
        · exact ⟨numberLength_pos ‹_› _, numberLength_le _⟩
        · split
          · trivial
          · exact codeLength_le stops _ _

def Lexeme.ItemOf (stops cs : List Char) : Lexeme → Prop
  | .stop => cs = []
  | .trivia _ => False
  | .code length => length = codeLength stops cs
  | _ => True

theorem Lexeme.itemOf_ofItem (stops cs : List Char) :
    (Lexeme.ofItem stops cs).ItemOf stops cs := by
  have hliteral : ∀ length?, (Lexeme.ofLiteral? length?).ItemOf stops cs := by
    intro length?
    cases length? <;> trivial
  unfold Lexeme.ofItem
  split
  · trivial
  · split
    · rfl
    · exact hliteral _
    · exact hliteral _
    · exact hliteral _
    · split
      · trivial
      · split
        · trivial
        · split
          · trivial
          · rfl

theorem restOfLine_pos {c : Char} (hc : c ≠ '\n') (rest : List Char) :
    1 ≤ restOfLine (c :: rest) ∧ restOfLine (c :: rest) ≤ (c :: rest).length := by
  refine ⟨?_, (List.takeWhile_prefix _).length_le⟩
  simp [restOfLine, hc]

theorem Lexeme.fits_read (stops : List Char) (lineStart : Bool) (cs : List Char) :
    (Lexeme.read stops lineStart cs).Fits cs := by
  unfold Lexeme.read
  split
  · trivial
  · rename_i c rest
    split
    · trivial
    · split
      · rename_i hblank
        refine ⟨?_, (List.takeWhile_prefix _).length_le⟩
        simp [hblank]
      · split
        · rename_i hslash
          have hc : c = '/' := by simp_all
          exact restOfLine_pos (by rw [hc]; decide) rest
        · split
          · split
            · rename_i length hlength
              have := blockCommentTail_le hlength
              rename_i hstar _
              cases rest with
              | nil => simp at hstar
              | cons d rest =>
                simp only [List.tail_cons] at this
                refine ⟨by omega, ?_⟩
                simp only [List.length_cons]
                omega
            · trivial
          · split
            · rename_i hhash
              have hc : c = '#' := by simp_all
              exact restOfLine_pos (by rw [hc]; decide) rest
            · exact fits_ofItem stops _

/-! ## Parts of a string -/

def StringPart.Fits (kind : StringKind) (cs : List Char) : StringPart → Prop
  | .text length => 1 ≤ length ∧ length ≤ cs.length
  | .hole => 1 ≤ kind.braces ∧ kind.braces ≤ runLength '\x7b' cs
  | .close => 1 ≤ kind.quotes ∧ kind.quotes ≤ runLength '"' cs
  | .broken => True

theorem StringPart.fits_ofRun {kind : StringKind} {cs : List Char} {run needed : Nat}
    {part : StringPart} (hpos : 1 ≤ run) (hle : run ≤ cs.length)
    (hpart : run = needed → part.Fits kind cs) : (StringPart.ofRun run needed part).Fits kind cs := by
  unfold StringPart.ofRun
  split
  · exact ⟨hpos, hle⟩
  · split
    · exact hpart ‹_›
    · exact ⟨by omega, by omega⟩

theorem StringKind.braces_eq_one {kind : StringKind} (h : ∀ d q, kind = .raw d q → False) :
    kind.braces = 1 := by
  cases kind with
  | raw d q => exact (h d q rfl).elim
  | _ => rfl

theorem StringKind.quotes_eq_one {kind : StringKind} (h : ∀ d q, kind = .raw d q → False) :
    kind.quotes = 1 := by
  cases kind with
  | raw d q => exact (h d q rfl).elim
  | _ => rfl

theorem StringPart.fits_read (kind : StringKind) (cs : List Char) :
    (StringPart.read kind cs).Fits kind cs := by
  fun_cases StringPart.read kind cs with
  | case1 => trivial
  | case2 => trivial
  | case3 => simp [Fits]
  | case4 => trivial
  | case5 => simp [Fits]
  | case6 dollars quotes c rest hc =>
    obtain rfl : c = '"' := eq_of_beq hc
    have hpos : 1 ≤ runLength '"' ('"' :: rest) := by simp [runLength_cons_self]
    exact fits_ofRun hpos (runLength_le _ _) fun h => ⟨h ▸ hpos, Nat.le_of_eq h.symm⟩
  | case7 dollars quotes c rest _ hc =>
    obtain rfl : c = '\x7b' := eq_of_beq hc
    have hpos : 1 ≤ runLength '\x7b' ('\x7b' :: rest) := by simp [runLength_cons_self]
    exact fits_ofRun hpos (runLength_le _ _) fun h => ⟨h ▸ hpos, Nat.le_of_eq h.symm⟩
  | case8 => simp [Fits]
  | case9 _ _ _ hraw => simp [Fits, StringKind.quotes_eq_one hraw, runLength_cons_self]
  | case10 => simp [Fits]
  | case11 => simp [Fits]
  | case12 =>
    rename_i hraw
    simp [Fits, StringKind.braces_eq_one hraw, runLength_cons_self]
  | case13 => simp [Fits]

end InterpolationLint
