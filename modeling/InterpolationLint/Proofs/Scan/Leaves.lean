import InterpolationLint.Proofs.Scan.Paving

/-!
# How leaves are written

A leaf of a scanned tree hides no structure. A run of code has no blank, quote, bracket or comment in
it, in whatever clause or bracket it stands; a literal is a number, or it is closed by the quote that
opens it.
-/

namespace InterpolationLint

structure PlainChar (c : Char) : Prop where
  notBlank : isBlank c = false
  notQuote : c ≠ '"' ∧ c ≠ '\''
  notBracket : c ∉ ['(', ')', '[', ']', '\x7b', '\x7d']

structure CodeText (cs : List Char) : Prop where
  nonempty : cs ≠ []
  plain : ∀ c ∈ cs, PlainChar c
  uncommented : ¬ ['/', '/'] <:+: cs ∧ ¬ ['/', '*'] <:+: cs

/-- Letters, digits and underscores, and points with a digit behind each. -/
inductive NumberRest : List Char → Prop
  | nil : NumberRest []
  | letter {c : Char} {cs : List Char} : c.isAlphanum = true ∨ c = '_' → NumberRest cs →
      NumberRest (c :: cs)
  | point {d : Char} {cs : List Char} : d.isDigit = true → NumberRest (d :: cs) →
      NumberRest ('.' :: d :: cs)

inductive LiteralText : List Char → Prop
  | number {d : Char} {cs : List Char} : d.isDigit = true → NumberRest cs → LiteralText (d :: cs)
  | string (body : List Char) : LiteralText ('"' :: (body ++ ['"']))
  | verbatim (body : List Char) : LiteralText ('@' :: '"' :: (body ++ ['"']))
  | character (body : List Char) : LiteralText ('\'' :: (body ++ ['\'']))

/-! ## Code -/

theorem plainChar_colon : PlainChar ':' := ⟨by decide, by decide, by decide⟩

theorem PlainChar.of_unbracketed {c : Char} (hblank : isBlank c = false)
    (hquote : c ≠ '"' ∧ c ≠ '\'') (hopening : bracket? c = none) (hclosing : isClosing c = false) :
    PlainChar c where
  notBlank := hblank
  notQuote := hquote
  notBracket := by
    intro hmem
    simp only [List.mem_cons, List.not_mem_nil, or_false] at hmem
    rcases hmem with rfl | rfl | rfl | rfl | rfl | rfl <;>
      simp [bracket?, isClosing] at hopening hclosing

theorem ne_quote_of_startsItem {c : Char} {rest : List Char}
    (h : startsItem (c :: rest) = false) : c ≠ '"' ∧ c ≠ '\'' := by
  constructor
  · rintro rfl
    cases h
  · rintro rfl
    cases h

theorem plain_colons {cs : List Char} {n : Nat} (h : ∀ c ∈ cs.take n, PlainChar c) :
    ∀ c ∈ (':' :: ':' :: cs).take (n + 2), PlainChar c := by
  rw [List.take_succ_cons, List.take_succ_cons]
  exact List.forall_mem_cons.mpr ⟨plainChar_colon, List.forall_mem_cons.mpr ⟨plainChar_colon, h⟩⟩

theorem codeTail_plain (stops cs : List Char) :
    ∀ c ∈ cs.take (codeTail stops cs), PlainChar c := by
  fun_induction codeTail stops cs with
  | case1 => simp
  | case2 rest ih => exact plain_colons ih
  | case3 => simp
  | case4 c rest _ hgoes ih =>
    simp only [Bool.or_eq_true, not_or, Bool.not_eq_true, Option.isSome_eq_false_iff,
      Option.isNone_iff_eq_none] at hgoes
    obtain ⟨⟨⟨⟨hblank, -⟩, hopening⟩, hclosing⟩, hstarts⟩ := hgoes
    rw [List.take_succ_cons]
    refine List.forall_mem_cons.mpr ⟨?_, ih⟩
    exact .of_unbracketed hblank (ne_quote_of_startsItem hstarts) hopening hclosing

theorem Lexeme.ofLiteral?_ne_code (length? : Option Nat) (n : Nat) :
    Lexeme.ofLiteral? length? ≠ .code n := by
  cases length? <;> nofun

/-- The first character of a run is taken unseen, but by then all that an item begins with is ruled
out, and so are the brackets that close one. -/
theorem Lexeme.ItemFront.plain {stops : List Char} {c : Char} {rest : List Char} {n : Nat}
    (h : (Lexeme.code n).ItemFront stops (c :: rest)) : PlainChar c := by
  have hitem := h.item
  unfold Lexeme.ofItem at hitem
  split at hitem
  · cases hitem
  · split at hitem
    · cases ‹c :: rest = []›
    · exact absurd hitem (ofLiteral?_ne_code _ n)
    · exact absurd hitem (ofLiteral?_ne_code _ n)
    · exact absurd hitem (ofLiteral?_ne_code _ n)
    · rename_i hquote _ hapostrophe heq
      cases heq
      split at hitem
      · cases hitem
      · split at hitem
        · cases hitem
        · split at hitem
          · cases hitem
          · rename_i hclosing
            rw [Bool.not_eq_true] at hclosing
            exact .of_unbracketed (h.notBlank c rfl) ⟨hquote, hapostrophe⟩ ‹_› hclosing

theorem Lexeme.plain_of_read_code {stops cs : List Char} {lineStart : Bool} {n : Nat}
    (h : Lexeme.read stops lineStart cs = .code n) : ∀ c ∈ cs.take n, PlainChar c := by
  have hfront := Lexeme.itemFront_of_read h rfl
  obtain rfl := codeLength_of_ofItem hfront.item
  rcases codeLength_cases stops cs with ⟨rest, rfl, hlength⟩ | hlength
  · rw [hlength]
    exact plain_colons (codeTail_plain stops rest)
  · rw [hlength]
    cases cs with
    | nil => simp
    | cons c rest =>
      rw [List.take_succ_cons]
      exact List.forall_mem_cons.mpr ⟨hfront.plain, codeTail_plain stops rest⟩

theorem Uncommented.not_infix {cs comment : List Char} {n : Nat} (h : Uncommented cs n)
    (hne : comment ≠ []) (hcomment : ∀ rest, BeginsComment (comment ++ rest)) :
    ¬ comment <:+: cs.take n := by
  rintro ⟨before, after, hsplit⟩
  have hcs : cs = before ++ (comment ++ (after ++ cs.drop n)) := by
    rw [← List.append_assoc, ← List.append_assoc, hsplit, List.take_append_drop]
  have hlength : (before ++ comment ++ after).length ≤ n := hsplit ▸ List.length_take_le n cs
  have hpos : 0 < comment.length := List.length_pos_iff.mpr hne
  apply h before.length
  · rw [List.length_append, List.length_append] at hlength
    omega
  · rw [hcs, List.drop_left]
    exact hcomment _

theorem Lexeme.codeText_of_read {stops cs : List Char} {lineStart : Bool} {n : Nat}
    (h : Lexeme.read stops lineStart cs = .code n) : CodeText (cs.take n) where
  nonempty := by
    have hfits : (Lexeme.code n).Fits cs := h ▸ Lexeme.fits_read stops lineStart cs
    rw [ne_eq, ← List.length_eq_zero_iff, List.length_take, Nat.min_eq_left hfits.2]
    exact Nat.ne_of_gt hfits.1
  plain := plain_of_read_code h
  uncommented := by
    have huncommented := uncommented_of_read_code h
    exact ⟨huncommented.not_infix nofun fun rest => .inl ⟨rest, rfl⟩,
      huncommented.not_infix nofun fun rest => .inr ⟨rest, rfl⟩⟩

/-! ## Literals -/

theorem numberRest_take (cs : List Char) : NumberRest (cs.take (numberLength cs)) := by
  fun_induction numberLength cs with
  | case1 => exact .nil
  | case2 c rest hc ih =>
    rw [List.take_succ_cons]
    simp only [Bool.or_eq_true, beq_iff_eq, Bool.and_eq_true] at hc
    rcases hc with hletter | ⟨rfl, hdigit⟩
    · exact .letter hletter ih
    · cases rest with
      | nil => cases hdigit
      | cons d rest =>
        obtain ⟨n, hn⟩ := Nat.exists_eq_add_of_le' (numberLength_pos hdigit rest)
        rw [hn, List.take_succ_cons] at ih ⊢
        exact .point hdigit ih
  | case3 => exact .nil

theorem EndsWith.take_eq {last : Char} {cs : List Char} {n : Nat} (h : EndsWith last cs n) :
    ∃ body, cs.take n = body ++ [last] := by
  obtain ⟨m, rfl, hm⟩ := h
  exact ⟨cs.take m, by rw [List.take_add_one, hm]; rfl⟩

theorem EndsWith.tail {last c : Char} {cs : List Char} {n : Nat} (h : EndsWith last (c :: cs) n)
    (hn : 2 ≤ n) : EndsWith last cs (n - 1) := by
  obtain ⟨m, rfl, hm⟩ := h
  obtain ⟨m, rfl⟩ := Nat.exists_eq_add_of_le' (Nat.le_of_succ_le_succ hn)
  exact ⟨m, rfl, hm⟩

theorem two_le_stringLength {cs : List Char} {n : Nat} (h : stringLength cs = some n) : 2 ≤ n := by
  unfold stringLength at h
  dsimp only at h
  split at h
  · obtain ⟨m, -, rfl⟩ := Option.map_eq_some_iff.mp h
    omega
  · obtain ⟨m, hm, rfl⟩ := Option.map_eq_some_iff.mp h
    exact Nat.succ_le_succ (quotedTail_le hm).1

theorem Lexeme.literalText_of_ofItem {stops cs : List Char} {n : Nat}
    (h : Lexeme.ofItem stops cs = .literal n) : LiteralText (cs.take n) := by
  unfold Lexeme.ofItem at h
  split at h
  · cases h
  · split at h
    · cases h
    · rename_i rest
      have hlength := eq_some_of_ofLiteral? h
      have htwo := two_le_stringLength hlength
      obtain ⟨body, hbody⟩ := ((stringLength_endsWith hlength).tail htwo).take_eq
      obtain ⟨m, rfl⟩ := Nat.exists_eq_add_of_le' (Nat.le_of_succ_le htwo)
      rw [List.take_succ_cons, ← Nat.add_sub_cancel m 1, hbody]
      exact .string body
    · obtain ⟨m, hm, rfl⟩ := Option.map_eq_some_iff.mp (eq_some_of_ofLiteral? h)
      obtain ⟨body, hbody⟩ := (verbatimTail_endsWith hm).take_eq
      rw [List.take_succ_cons, List.take_succ_cons, hbody]
      exact .verbatim body
    · obtain ⟨m, hm, rfl⟩ := Option.map_eq_some_iff.mp (eq_some_of_ofLiteral? h)
      obtain ⟨body, hbody⟩ := (quotedTail_endsWith hm).take_eq
      rw [List.take_succ_cons, hbody]
      exact .character body
    · split at h
      · cases h
      · split at h
        · rename_i d rest _ _ _ _ _ _ hdigit
          cases h
          have hnumber : numberLength (d :: rest) = numberLength rest + 1 := by
            simp [numberLength, Char.isAlphanum, hdigit]
          rw [hnumber, List.take_succ_cons]
          exact .number hdigit (numberRest_take rest)
        · split at h <;> cases h

/-! ## Leaves -/

/-- At any depth of a scanned tree, a run of code is free of blanks, quotes, brackets and comments,
and a literal is a number or ends with the quote that opens it. -/
theorem SourceTree.leaves_written {source : String} {tree : SourceTree}
    (h : SourceTree.ofSource source = .ok tree) : ∀ item ∈ tree.items,
    (∀ range, (Expr.code range).PartOf item →
      ∃ cs, range.Holds source.toList cs ∧ CodeText cs) ∧
    ∀ range, (Expr.literal range).PartOf item →
      ∃ cs, range.Holds source.toList cs ∧ LiteralText cs := by
  intro item hitem
  constructor
  · intro range hpart
    obtain ⟨stops, c, n, hc, ⟨_, ⟨⟩⟩ | ⟨hread, ⟨⟩⟩⟩ := SourceTree.leaf_readIn h hitem rfl hpart
    have hholds := hc.sound.1.holds (.advance c (Cursor.fits_of_read hread).2)
    exact ⟨_, hholds, Lexeme.codeText_of_read hread⟩
  · intro range hpart
    obtain ⟨stops, c, n, hc, ⟨hread, ⟨⟩⟩ | ⟨_, ⟨⟩⟩⟩ := SourceTree.leaf_readIn h hitem rfl hpart
    have hholds := hc.sound.1.holds (.advance c (Cursor.fits_of_read hread).2)
    have hfront := Lexeme.itemFront_of_read hread rfl
    exact ⟨_, hholds, Lexeme.literalText_of_ofItem hfront.item⟩

/-- A qualified name with a slash and an alignment with a point, in one hole. -/
theorem SourceTree.leaves_written_in_clauses : ∃ source tree item,
    source = "x=$\"\x7ba::b/c,1.5\x7d\"+@\"d\"\"e\";" ∧ SourceTree.ofSource source = .ok tree ∧
    item ∈ tree.items ∧ (Expr.code ⟨5, 11⟩).PartOf item ∧ (Expr.literal ⟨12, 15⟩).PartOf item ∧
    (∃ cs, TextRange.Holds source.toList ⟨5, 11⟩ cs ∧ CodeText cs) ∧
    ∃ cs, TextRange.Holds source.toList ⟨12, 15⟩ cs ∧ LiteralText cs := by
  have hscan : SourceTree.ofSource "x=$\"\x7ba::b/c,1.5\x7d\"+@\"d\"\"e\";" =
      .ok ⟨[.code ⟨0, 2⟩, .interpolated ⟨0, .regular, ⟨2, 17⟩, ⟨4, 16⟩,
          [.hole ⟨4, 16⟩ (.code ⟨5, 11⟩) (some (.literal ⟨12, 15⟩)) none]⟩,
        .code ⟨17, 18⟩, .literal ⟨18, 25⟩, .code ⟨25, 26⟩],
        LineIndex.ofText "x=$\"\x7ba::b/c,1.5\x7d\"+@\"d\"\"e\";"⟩ := rfl
  have hleaves := SourceTree.leaves_written hscan _ (.tail _ (.head _))
  refine ⟨_, _, _, rfl, hscan, .tail _ (.head _), ?_, ?_, hleaves.1 _ ?_, hleaves.2 _ ?_⟩
  · exact .clause (List.mem_singleton_self _) (.head _) .self
  · exact .clause (List.mem_singleton_self _) (.tail _ (.head _)) .self
  · exact .clause (List.mem_singleton_self _) (.head _) .self
  · exact .clause (List.mem_singleton_self _) (.tail _ (.head _)) .self

end InterpolationLint
