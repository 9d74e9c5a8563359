import InterpolationLint.Proofs.Scan.Lexeme
import InterpolationLint.Proofs.Sketch.Basic

/-!
# Reading what a sketch writes

What each reader answers at the front of a piece of a written sketch. Behind an item stands the end
of the text, a space or a closing bracket, and none of them could be taken into the item.
-/

namespace InterpolationLint

def itemEnds : List Char := [',', ':', ')', ']', '\x7d']

def Ends (rest : List Char) : Prop := ∀ c, rest.head? = some c → c = ' ' ∨ isClosing c = true

theorem Ends.nil : Ends [] := by
  intro c hc
  cases hc

theorem Ends.space (rest : List Char) : Ends (' ' :: rest) := by
  rintro c ⟨⟩
  exact .inl rfl

theorem Ends.closing (bracket : Bracket) (rest : List Char) : Ends (bracket.closing :: rest) := by
  rintro c ⟨⟩
  right
  cases bracket <;> rfl

theorem Ends.head?_ne {rest : List Char} (h : Ends rest) {c : Char} (hspace : c ≠ ' ')
    (hclosing : isClosing c = false) : rest.head? ≠ some c := by
  intro hc
  rcases h c hc with rfl | hc
  · exact hspace rfl
  · rw [hclosing] at hc
    cases hc

/-! ## Words and plain strings -/

theorem opening?_eq_none {c : Char} (hdollar : c ≠ '$') (hat : c ≠ '@') (rest : List Char) :
    opening? (c :: rest) = none := by
  unfold opening?
  split
  · simp_all
  · simp_all
  · simp [runLength_cons_of_ne hdollar]

theorem Lexeme.read_eq_ofItem {stops : List Char} (hstops : stops ⊆ itemEnds) {c : Char}
    (hc : c ∉ itemEnds) (hblank : isBlank c = false) (hslash : c ≠ '/') (hhash : c ≠ '#')
    (lineStart : Bool) (rest : List Char) :
    Lexeme.read stops lineStart (c :: rest) = .ofItem stops (c :: rest) := by
  have hstop : c ∉ stops := fun hmem => hc (hstops hmem)
  simp [read, hstop, hblank, hslash, hhash]

/-- Behind a character that opens no literal and no string, only the character itself matters. -/
theorem Lexeme.ofItem_of_not_mem (stops : List Char) {c : Char} (hc : c ∉ ['$', '@', '"', '\''])
    (rest : List Char) : Lexeme.ofItem stops (c :: rest) =
      match bracket? c with
      | some (delimiter, close) => .opening delimiter c close
      | none =>
        if c.isDigit then .literal (numberLength (c :: rest))
        else if isClosing c then .broken (.unbalanced c)
        else .code (codeLength stops (c :: rest)) := by
  simp only [List.mem_cons, List.not_mem_nil, or_false, not_or] at hc
  obtain ⟨hdollar, hat, hquote, hapostrophe⟩ := hc
  have hnone := opening?_eq_none hdollar hat rest
  exact ofItem_of_no_string hquote hapostrophe (fun h => hat h.1) hnone

/-! ### Letters -/

section
variable {c : Char} (h : c.isAlpha = true)
include h

theorem toNat_of_isAlpha : 65 ≤ c.toNat ∧ c.toNat ≤ 122 := by
  change (decide (65 ≤ c.val ∧ c.val ≤ 90) ||
    decide (97 ≤ c.val) && decide (c.val ≤ 122)) = true at h
  simp only [Bool.or_eq_true, Bool.and_eq_true, decide_eq_true_eq, UInt32.le_iff_toNat_le] at h
  change (65 ≤ c.toNat ∧ c.toNat ≤ 90) ∨ (97 ≤ c.toNat ∧ c.toNat ≤ 122) at h
  omega

theorem ne_of_isAlpha {d : Char} (hd : d.isAlpha = false) : c ≠ d := by
  rintro rfl
  rw [h] at hd
  cases hd

theorem not_mem_of_isAlpha (ds : List Char) (hds : ds.all (!·.isAlpha) = true) : c ∉ ds := by
  intro hmem
  have hc := List.all_eq_true.mp hds c hmem
  simp [h] at hc

theorem isBlank_of_isAlpha : isBlank c = false := by
  have := toNat_of_isAlpha h
  simp only [isBlank, blankRanges, List.any_cons, List.any_nil, Bool.or_false,
    Bool.or_eq_false_iff, Bool.and_eq_false_iff, decide_eq_false_iff_not]
  omega

theorem isDigit_of_isAlpha : c.isDigit = false := by
  have := toNat_of_isAlpha h
  rw [← Bool.not_eq_true]
  simp only [Char.isDigit, Bool.and_eq_true, decide_eq_true_eq, ge_iff_le,
    UInt32.le_iff_toNat_le]
  change ¬ (48 ≤ c.toNat ∧ c.toNat ≤ 57)
  omega

theorem isClosing_of_isAlpha : isClosing c = false := by
  simp [isClosing, ne_of_isAlpha h (d := ')') (by decide), ne_of_isAlpha h (d := ']') (by decide),
    ne_of_isAlpha h (d := '\x7d') (by decide)]

theorem bracket?_of_isAlpha : bracket? c = none := by
  have hc := not_mem_of_isAlpha h ['(', '[', '\x7b'] (by decide)
  unfold bracket?
  split <;> simp_all

theorem opening?_of_isAlpha (rest : List Char) : opening? (c :: rest) = none :=
  opening?_eq_none (ne_of_isAlpha h (by decide)) (ne_of_isAlpha h (by decide)) rest

theorem startsItem_of_isAlpha (rest : List Char) : startsItem (c :: rest) = false := by
  have hc := not_mem_of_isAlpha h ['"', '\'', '/', '@'] (by decide)
  have hopening := opening?_of_isAlpha h rest
  unfold startsItem
  split <;> simp_all

end

/-! ### Words -/

theorem codeTail_of_ends (stops : List Char) {rest : List Char} (h : Ends rest) :
    codeTail stops rest = 0 := by
  cases rest with
  | nil => rfl
  | cons c rest =>
    have hcolon : c ≠ ':' := by
      rintro rfl
      exact absurd rfl (h.head?_ne (by decide) (by decide))
    have hstop : isBlank c = true ∨ isClosing c = true := by
      rcases h c rfl with rfl | hc
      · exact .inl (by decide)
      · exact .inr hc
    rw [codeTail]
    · rcases hstop with hc | hc <;> simp [hc]
    · simp [hcolon]

theorem codeTail_letters {stops : List Char} (hstops : stops ⊆ itemEnds) {rest : List Char}
    (hrest : Ends rest) : ∀ {letters : List Char}, (∀ c ∈ letters, c.isAlpha = true) →
      codeTail stops (letters ++ rest) = letters.length
  | [], _ => codeTail_of_ends stops hrest
  | c :: letters, h => by
    have hc : c.isAlpha = true := h c List.mem_cons_self
    have hstop : c ∉ stops := fun hmem => not_mem_of_isAlpha hc itemEnds (by decide) (hstops hmem)
    have ih := codeTail_letters hstops hrest fun d hd => h d (List.mem_cons_of_mem c hd)
    rw [List.cons_append, codeTail]
    · simp [isBlank_of_isAlpha hc, hstop, bracket?_of_isAlpha hc, isClosing_of_isAlpha hc,
        startsItem_of_isAlpha hc, ih]
    · simp [ne_of_isAlpha hc (d := ':') (by decide)]

theorem Lexeme.read_word {stops : List Char} (hstops : stops ⊆ itemEnds) (lineStart : Bool)
    {letters rest : List Char} (hne : letters ≠ []) (h : ∀ c ∈ letters, c.isAlpha = true)
    (hrest : Ends rest) :
    Lexeme.read stops lineStart (letters ++ rest) = .code letters.length := by
  cases letters with
  | nil => exact absurd rfl hne
  | cons c letters =>
    have hc : c.isAlpha = true := h c List.mem_cons_self
    have htail := codeTail_letters hstops hrest fun d hd => h d (List.mem_cons_of_mem c hd)
    have hqualifier : atScopeQualifier (c :: (letters ++ rest)) = false := by
      have hcolon := ne_of_isAlpha hc (d := ':') (by decide)
      unfold atScopeQualifier
      split <;> simp_all
    rw [List.cons_append, read_eq_ofItem hstops (not_mem_of_isAlpha hc itemEnds (by decide))
      (isBlank_of_isAlpha hc) (ne_of_isAlpha hc (by decide)) (ne_of_isAlpha hc (by decide)),
      ofItem_of_not_mem stops (not_mem_of_isAlpha hc _ (by decide)), bracket?_of_isAlpha hc]
    simp [isDigit_of_isAlpha hc, isClosing_of_isAlpha hc, codeLength, hqualifier, htail]

/-! ### Plain strings -/

theorem quotedTail_text {text : List Char} (h : ∀ c ∈ text, c ≠ '"' ∧ c ≠ '\\' ∧ c ≠ '\n')
    (rest : List Char) : quotedTail '"' (text ++ '"' :: rest) = some (text.length + 1) := by
  induction text with
  | nil => simp [quotedTail]
  | cons c text ih =>
    obtain ⟨hquote, hbackslash, hnewline⟩ := h c List.mem_cons_self
    have ih := ih fun d hd => h d (List.mem_cons_of_mem c hd)
    rw [List.cons_append, quotedTail]
    · simp [hquote, hnewline, ih]
    · simp [hbackslash]
    · simp [hbackslash]

theorem Lexeme.read_plain {stops : List Char} (hstops : stops ⊆ itemEnds) (lineStart : Bool)
    {text rest : List Char} (h : ∀ c ∈ text, c ≠ '"' ∧ c ≠ '\\' ∧ c ≠ '\n') (hrest : Ends rest) :
    Lexeme.read stops lineStart ('"' :: (text ++ '"' :: rest)) = .literal (text.length + 2) := by
  have hrun : runLength '"' ('"' :: (text ++ '"' :: rest)) ≤ 2 := by
    cases text with
    | nil =>
      have hz : runLength '"' rest = 0 :=
        runLength_eq_zero (hrest.head?_ne (by decide) (by decide))
      simp [runLength_cons_self, hz]
    | cons c text =>
      have hc : c ≠ '"' := (h c List.mem_cons_self).1
      simp [runLength_cons_self, runLength_cons_of_ne hc]
  have hlength : stringLength ('"' :: (text ++ '"' :: rest)) = some (text.length + 2) := by
    rw [stringLength, if_neg (by omega), List.drop_succ_cons, List.drop_zero,
      quotedTail_text h rest]
    rfl
  rw [read_eq_ofItem hstops (by decide) (by decide) (by decide) (by decide), ofItem,
    opening?_eq_none (by decide) (by decide)]
  dsimp only
  rw [hlength]
  rfl

/-! ## Brackets -/

theorem Lexeme.read_bracket {stops : List Char} (hstops : stops ⊆ itemEnds) (lineStart : Bool)
    (bracket : Bracket) (rest : List Char) :
    Lexeme.read stops lineStart (bracket.opening :: rest) =
      .opening bracket.delimiter bracket.opening bracket.closing := by
  have hopening : bracket? bracket.opening = some (bracket.delimiter, bracket.closing) := by
    cases bracket <;> rfl
  have hitem : Lexeme.ofItem stops (bracket.opening :: rest) =
      .opening bracket.delimiter bracket.opening bracket.closing := by
    rw [ofItem_of_not_mem stops (by cases bracket <;> decide), hopening]
  rw [← hitem]
  cases bracket <;>
    exact read_eq_ofItem hstops (by decide) (by decide) (by decide) (by decide) _ _

theorem Lexeme.read_stop {stops : List Char} (lineStart : Bool) {c : Char} (hc : c ∈ stops)
    (hcolon : c ≠ ':') (rest : List Char) :
    Lexeme.read stops lineStart (c :: rest) = .stop := by
  have hqualifier : atScopeQualifier (c :: rest) = false := by
    unfold atScopeQualifier
    split <;> simp_all
  simp [read, hc, hqualifier]

/-! ## Interpolated strings -/

/-- What may stand behind the opening marker. The quotes of the marker of a raw string must not run
on, and those of a regular one must not come to three. -/
def Flavor.Follows (body : List Char) : Flavor → Prop
  | .regular => runLength '"' body ≤ 1
  | .verbatim _ => True
  | .raw _ _ _ _ => body.head? ≠ some '"'

theorem opening?_flavor {flavor : Flavor} {body : List Char} (h : flavor.Follows body) :
    opening? (flavor.opening ++ body) = some (flavor.kind, flavor.opening.length) := by
  cases flavor with
  | regular =>
    have hquotes : runLength '"' body ≤ 1 := h
    have hdollars : runLength '$' ('$' :: '"' :: body) = 1 := by
      rw [runLength_cons_self, runLength_cons_of_ne (by decide)]
    rw [Flavor.opening, List.cons_append, List.cons_append, List.nil_append, opening?]
    · rw [hdollars, List.drop_succ_cons, List.drop_zero, runLength_cons_self]
      simp only [Nat.one_ne_zero, ite_false, true_and, Nat.le_add_left, ite_true]
      rw [if_neg (by omega)]
      rfl
    · simp
    · simp
  | verbatim dollarFirst => cases dollarFirst <;> rfl
  | raw d q hd hq =>
    have hbody : body.head? ≠ some '"' := h
    have hquotes := runLength_replicate_append '"' hbody q
    have hdollars : runLength '$' (List.replicate d '$' ++ (List.replicate q '"' ++ body)) = d := by
      refine runLength_replicate_append '$' ?_ d
      rw [head?_replicate_append (by omega)]
      decide
    rw [Flavor.opening, List.append_assoc]
    unfold opening?
    split
    · rename_i heq
      obtain ⟨d, rfl⟩ := Nat.exists_eq_add_of_le' hd
      cases d with
      | zero =>
        obtain ⟨q, rfl⟩ := Nat.exists_eq_add_of_le' hq
        simp [List.replicate_succ] at heq
      | succ d => simp [List.replicate_succ] at heq
    · rename_i heq
      obtain ⟨d, rfl⟩ := Nat.exists_eq_add_of_le' hd
      simp [List.replicate_succ] at heq
    · have hdrop : (List.replicate d '$' ++ (List.replicate q '"' ++ body)).drop d =
          List.replicate q '"' ++ body := List.drop_left' List.length_replicate
      dsimp only
      rw [hdollars, hdrop, hquotes, if_neg (by omega), if_pos hq, List.length_append,
        List.length_replicate, List.length_replicate]
      rfl

theorem Flavor.opening_eq_cons (flavor : Flavor) :
    ∃ c rest, c ∈ ['$', '@'] ∧ flavor.opening = c :: rest := by
  cases flavor with
  | regular => exact ⟨_, _, by decide, rfl⟩
  | verbatim dollarFirst => cases dollarFirst <;> exact ⟨_, _, by decide, rfl⟩
  | raw d q hd hq =>
    obtain ⟨d, rfl⟩ := Nat.exists_eq_add_of_le' hd
    exact ⟨_, _, by decide, rfl⟩

theorem Lexeme.read_flavor {stops : List Char} (hstops : stops ⊆ itemEnds) (lineStart : Bool)
    {flavor : Flavor} {body : List Char} (h : flavor.Follows body) :
    Lexeme.read stops lineStart (flavor.opening ++ body) =
      .string flavor.kind flavor.opening.length := by
  have hitem : Lexeme.ofItem stops (flavor.opening ++ body) =
      .string flavor.kind flavor.opening.length := by
    unfold ofItem
    rw [opening?_flavor h]
  obtain ⟨c, rest, hc, hopening⟩ := flavor.opening_eq_cons
  rw [← hitem, hopening, List.cons_append]
  simp only [List.mem_cons, List.not_mem_nil, or_false] at hc
  rcases hc with rfl | rfl <;>
    exact read_eq_ofItem hstops (by decide) (by decide) (by decide) (by decide) _ _

/-- One character of text as it is written. -/
theorem StringPart.read_doubled {flavor : Flavor} {c : Char} (h : flavor.doubles c = true)
    (rest : List Char) : StringPart.read flavor.kind (c :: c :: rest) = .text 2 := by
  cases flavor with
  | regular =>
    simp only [Flavor.doubles, Bool.or_eq_true, beq_iff_eq] at h
    rcases h with rfl | rfl <;> rfl
  | verbatim dollarFirst =>
    simp only [Flavor.doubles, Bool.or_eq_true, beq_iff_eq] at h
    rcases h with (rfl | rfl) | rfl <;> rfl
  | raw d q hd hq => cases h

theorem StringPart.read_single {flavor : Flavor} {c : Char} (h : flavor.allows c = true)
    (hsingle : flavor.doubles c = false) (rest : List Char) :
    StringPart.read flavor.kind (c :: rest) = .text 1 := by
  cases flavor with
  | regular =>
    simp only [Flavor.doubles, Flavor.allows, Bool.or_eq_false_iff, Bool.and_eq_true,
      beq_eq_false_iff_ne, bne_iff_ne] at h hsingle
    rw [Flavor.kind, StringPart.read] <;> simp_all
  | verbatim dollarFirst =>
    simp only [Flavor.doubles, Bool.or_eq_false_iff, beq_eq_false_iff_ne] at hsingle
    rw [Flavor.kind, StringPart.read] <;> simp_all
  | raw d q hd hq =>
    simp only [Flavor.allows, Bool.and_eq_true, bne_iff_ne] at h
    simp [Flavor.kind, StringPart.read, h]

theorem StringPart.read_closing (flavor : Flavor) {rest : List Char} (hrest : Ends rest) :
    StringPart.read flavor.kind (flavor.closing ++ rest) = .close := by
  have hquote : rest.head? ≠ some '"' := hrest.head?_ne (by decide) (by decide)
  cases flavor with
  | regular =>
    show StringPart.read .regular ('"' :: rest) = .close
    rw [StringPart.read] <;> simp
  | verbatim dollarFirst =>
    cases rest with
    | nil => rfl
    | cons c rest =>
      have hc : c ≠ '"' := fun e => hquote (e ▸ rfl)
      show StringPart.read .verbatim ('"' :: c :: rest) = .close
      rw [StringPart.read] <;> simp [hc]
  | raw d q hd hq =>
    have hrun := runLength_replicate_append '"' hquote q
    obtain ⟨q, rfl⟩ := Nat.exists_eq_add_of_le' (Nat.le_of_succ_le (Nat.le_of_succ_le hq))
    show StringPart.read (.raw d (q + 1)) (List.replicate (q + 1) '"' ++ rest) = .close
    rw [List.replicate_succ, List.cons_append] at hrun ⊢
    simp [StringPart.read, hrun, StringPart.ofRun]

theorem StringPart.read_braces (flavor : Flavor) (rest : List Char) :
    StringPart.read flavor.kind (List.replicate flavor.kind.braces '\x7b' ++ ' ' :: rest) =
      .hole := by
  cases flavor with
  | regular => rfl
  | verbatim dollarFirst => rfl
  | raw d q hd hq =>
    have hrun := runLength_replicate_append '\x7b' (show (' ' :: rest).head? ≠ _ by simp) d
    obtain ⟨d, rfl⟩ := Nat.exists_eq_add_of_le' hd
    show StringPart.read (.raw (d + 1) q) (List.replicate (d + 1) '\x7b' ++ ' ' :: rest) = .hole
    rw [List.replicate_succ, List.cons_append] at hrun ⊢
    simp [StringPart.read, hrun, StringPart.ofRun]

end InterpolationLint
