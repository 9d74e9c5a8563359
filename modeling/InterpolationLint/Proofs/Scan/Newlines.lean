import InterpolationLint.Proofs.Scan.Texts
import InterpolationLint.Proofs.Scan.Visits

/-!
# Newlines in strings of one line

A regular string, with holes or without, and a character literal end in the line in which they
begin. Only an escaped newline is let through: what stands behind a backslash is taken unseen.
-/

namespace InterpolationLint

/-- Characters of which those in `bare` stand only behind a backslash. A backslash takes the next
character with it, whatever that is. -/
inductive Escaped (bare : List Char) : List Char → Prop
  | nil : Escaped bare []
  | pair (c : Char) {cs : List Char} : Escaped bare cs → Escaped bare ('\\' :: c :: cs)
  | plain {c : Char} {cs : List Char} : c ≠ '\\' → c ∉ bare → Escaped bare cs →
      Escaped bare (c :: cs)

theorem Escaped.append {bare xs ys : List Char} (hx : Escaped bare xs) (hy : Escaped bare ys) :
    Escaped bare (xs ++ ys) := by
  induction hx with
  | nil => exact hy
  | pair c _ ih => exact .pair c ih
  | plain hc hbare _ ih => exact .plain hc hbare ih

/-! ## Texts -/

theorem StringKind.Unit.escaped_of_regular {unit : List Char} (h : StringKind.Unit .regular unit) :
    Escaped ['"', '\n'] unit := by
  cases h with
  | escaped c => exact .pair c .nil
  | opening => exact .plain (by decide) (by decide) (.plain (by decide) (by decide) .nil)
  | closing => exact .plain (by decide) (by decide) (.plain (by decide) (by decide) .nil)
  | regular hc => exact .plain (by simp_all) (by simp_all) .nil

theorem StringKind.Plain.escaped {cs : List Char} {holeNext last : Prop}
    (h : StringKind.Plain cs holeNext last .regular) : Escaped ['"', '\n'] cs := by
  obtain ⟨units, rfl, hunits⟩ := h
  induction units with
  | nil => exact .nil
  | cons unit units ih =>
    obtain ⟨hunit, hunits⟩ := List.forall_mem_cons.mp hunits
    exact hunit.escaped_of_regular.append (ih hunits)

/-! ## Literals -/

theorem quotedTail_eq_some {quote : Char} {cs : List Char} {n : Nat}
    (h : quotedTail quote cs = some n) : ∃ body rest, cs = body ++ quote :: rest ∧
      n = body.length + 1 ∧ Escaped [quote, '\n'] body := by
  fun_induction quotedTail quote cs generalizing n with
  | case1 => cases h
  | case2 => cases h
  | case3 c rest ih =>
    obtain ⟨m, hm, rfl⟩ := Option.map_eq_some_iff.mp h
    obtain ⟨body, rest, rfl, rfl, hbody⟩ := ih hm
    exact ⟨'\\' :: c :: body, rest, rfl, rfl, .pair c hbody⟩
  | case4 => cases h
  | case5 rest =>
    cases h
    exact ⟨[], rest, rfl, rfl, .nil⟩
  | case6 c rest hlast hescape hline hquote ih =>
    obtain ⟨m, hm, rfl⟩ := Option.map_eq_some_iff.mp h
    obtain ⟨body, rest, rfl, rfl, hbody⟩ := ih hm
    have hc : c ≠ '\\' := by
      rintro rfl
      cases body with
      | nil => exact hescape _ _ rfl rfl
      | cons => exact hescape _ _ rfl rfl
    exact ⟨c :: body, rest, rfl, rfl, .plain hc (by simp [hquote, hline]) hbody⟩

theorem quotedTail_append {quote : Char} {body : List Char} (h : Escaped [quote, '\n'] body)
    (rest : List Char) :
    quotedTail quote (body ++ rest) = (quotedTail quote rest).map (· + body.length) := by
  induction h with
  | nil => simp
  | pair c _ ih =>
    rw [List.cons_append, List.cons_append, quotedTail, ih, Option.map_map]
    rfl
  | plain hc hbare _ ih =>
    obtain ⟨hquote, hline⟩ : _ ≠ quote ∧ _ ≠ '\n' := by simpa using hbare
    rw [List.cons_append, quotedTail, if_neg hline, if_neg hquote, ih, Option.map_map]
    · rfl
    · exact fun h _ => hc h
    · exact fun _ _ h _ => hc h

/-- A literal of one line begins here: a character, or a string that is not raw. -/
def QuotedBy (quote : Char) (cs : List Char) : Prop :=
  cs.head? = some quote ∧ (quote = '"' ∧ runLength '"' cs ≤ 2 ∨ quote = '\'')

def Lexeme.isItem : Lexeme → Bool
  | .literal _ | .code _ | .opening _ _ _ | .string _ _ => true
  | .stop | .trivia _ | .broken _ => false

structure Lexeme.ItemFront (stops cs : List Char) (lexeme : Lexeme) : Prop where
  item : Lexeme.ofItem stops cs = lexeme
  notBlank : ∀ c, cs.head? = some c → isBlank c = false
  uncommented : ¬BeginsComment cs

theorem Lexeme.itemFront_of_read {stops cs : List Char} {lineStart : Bool} {lexeme : Lexeme}
    (h : Lexeme.read stops lineStart cs = lexeme) (hitem : lexeme.isItem = true) :
    lexeme.ItemFront stops cs := by
  have hno : ∀ {other : Lexeme}, other = lexeme → other.isItem = false → False := by
    rintro _ rfl hother
    rw [hother] at hitem
    cases hitem
  unfold Lexeme.read at h
  split at h
  · exact (hno h rfl).elim
  · rename_i c rest
    split at h
    · exact (hno h rfl).elim
    · split at h
      · exact (hno h rfl).elim
      · split at h
        · exact (hno h rfl).elim
        · split at h
          · split at h
            · exact (hno h rfl).elim
            · exact (hno h rfl).elim
          · split at h
            · exact (hno h rfl).elim
            · refine ⟨h, ?_, ?_⟩
              · rintro _ ⟨⟩
                simpa using ‹¬isBlank c = true›
              · rintro (⟨rest, hcs⟩ | ⟨rest, hcs⟩)
                · cases hcs
                  contradiction
                · cases hcs
                  contradiction

theorem Lexeme.eq_some_of_ofLiteral? {length? : Option Nat} {n : Nat}
    (h : Lexeme.ofLiteral? length? = .literal n) : length? = some n := by
  cases length? with
  | none => cases h
  | some m =>
    cases h
    rfl

theorem Lexeme.ofItem_quote (stops rest : List Char) :
    Lexeme.ofItem stops ('"' :: rest) = .ofLiteral? (stringLength ('"' :: rest)) := by
  simp [Lexeme.ofItem, opening?_eq_none]

theorem Lexeme.ofItem_apostrophe (stops rest : List Char) :
    Lexeme.ofItem stops ('\'' :: rest) = .ofLiteral? ((quotedTail '\'' rest).map (· + 1)) := by
  simp [Lexeme.ofItem, opening?_eq_none]

theorem le_runLength_take {mark : Char} {cs : List Char} {n : Nat} (h : runLength mark cs ≤ n) :
    runLength mark cs ≤ runLength mark (cs.take n) := by
  induction cs generalizing n with
  | nil => simp
  | cons c cs ih =>
    by_cases hc : c = mark
    · subst hc
      rw [runLength_cons_self] at h ⊢
      obtain ⟨n, rfl, hn⟩ := exists_budget h
      rw [List.take_succ_cons, runLength_cons_self]
      exact Nat.succ_le_succ (ih hn)
    · rw [runLength_cons_of_ne hc]
      exact Nat.zero_le _

theorem stringLength_of_quotedBy {cs : List Char} {n : Nat} (h : stringLength cs = some n)
    (hquoted : QuotedBy '"' (cs.take n)) : quotedTail '"' (cs.drop 1) = some (n - 1) := by
  unfold stringLength at h
  dsimp only at h
  split at h
  · -- the quotes that open a raw string are all part of it
    obtain ⟨m, hm, rfl⟩ := Option.map_eq_some_iff.mp h
    have hrun := le_runLength_take (Nat.le_add_left (runLength '"' cs) m)
    have hle : runLength '"' (cs.take (m + runLength '"' cs)) ≤ 2 := by simpa using hquoted.2
    omega
  · obtain ⟨m, hm, rfl⟩ := Option.map_eq_some_iff.mp h
    exact hm

theorem Lexeme.quoted_of_ofItem {stops cs : List Char} {n : Nat} {quote : Char}
    (h : Lexeme.ofItem stops cs = .literal n) (hquoted : QuotedBy quote (cs.take n)) :
    ∃ body, cs.take n = quote :: (body ++ [quote]) ∧ Escaped [quote, '\n'] body := by
  have hhead : cs.head? = some quote := by
    cases n with
    | zero => cases hquoted.1
    | succ n =>
      cases cs with
      | nil => cases hquoted.1
      | cons => exact hquoted.1
  obtain ⟨rest, rfl⟩ := List.head?_eq_some_iff.mp hhead
  have htail : quotedTail quote rest = some (n - 1) := by
    rcases hquoted.2 with ⟨rfl, -⟩ | rfl
    · rw [Lexeme.ofItem_quote] at h
      exact stringLength_of_quotedBy (eq_some_of_ofLiteral? h) hquoted
    · rw [Lexeme.ofItem_apostrophe] at h
      obtain ⟨m, hm, rfl⟩ := Option.map_eq_some_iff.mp (eq_some_of_ofLiteral? h)
      exact hm
  obtain ⟨body, rest, rfl, hn, hbody⟩ := quotedTail_eq_some htail
  obtain rfl : n = body.length + 2 := by omega
  refine ⟨body, ?_, hbody⟩
  have htake : (body ++ quote :: rest).take (body.length + 1) = body ++ [quote] := by
    rw [List.take_length_add_append, List.take_succ_cons, List.take_zero]
  rw [List.take_succ_cons, htake]

/-! ## Failures -/

theorem Lexeme.read_unterminated {stops : List Char} (hstops : stops ⊆ itemEnds)
    (lineStart : Bool) {quote : Char} (hquote : quote = '"' ∨ quote = '\'') {body : List Char}
    (hbody : Escaped [quote, '\n'] body) {rest : List Char} (hrest : quotedTail quote rest = none) :
    Lexeme.read stops lineStart (quote :: (body ++ rest)) = .broken .unterminatedString := by
  have htail : quotedTail quote (body ++ rest) = none := by rw [quotedTail_append hbody, hrest]; rfl
  rcases hquote with rfl | rfl
  · have hrun : runLength '"' (body ++ rest) = 0 := by
      cases hbody with
      | nil =>
        refine runLength_eq_zero fun hhead => ?_
        obtain ⟨rest, rfl⟩ := List.head?_eq_some_iff.mp hhead
        simp [quotedTail] at hrest
      | pair => exact runLength_cons_of_ne (by decide) _
      | plain _ hbare => exact runLength_cons_of_ne (fun h => hbare (by simp [h])) _
    rw [Lexeme.read_eq_ofItem hstops (by decide) (by decide) (by decide) (by decide),
      Lexeme.ofItem_quote, stringLength, runLength_cons_self, hrun]
    simp only [List.drop_succ_cons, List.drop_zero, htail]
    rfl
  · rw [Lexeme.read_eq_ofItem hstops (by decide) (by decide) (by decide) (by decide),
      Lexeme.ofItem_apostrophe, htail]
    rfl

theorem ScanPlace.fails_of_broken {stops : List Char} {c : Cursor} {problem : ScanProblem}
    (h : Lexeme.read stops c.lineStart c.ahead = .broken problem) :
    (ScanPlace.items stops c).Fails ⟨problem, c.offset⟩ := by
  refine ⟨1, fun budget hle => ?_⟩
  obtain ⟨budget, rfl, -⟩ := exists_budget hle
  simp only [scanItems, h]

theorem ScanPlace.fails_of_broken_text {kind : StringKind} {opened : Nat} {pending c : Cursor}
    (h : StringPart.read kind c.ahead = .broken) :
    (ScanPlace.segments kind opened pending c).Fails ⟨.unterminatedString, opened⟩ := by
  refine ⟨1, fun budget hle => ?_⟩
  obtain ⟨budget, rfl, -⟩ := exists_budget hle
  simp only [scanSegments, h]

theorem Visited.unterminated {text stops : List Char} {c : Cursor} {quote : Char}
    {body rest : List Char} (h : Visited text (.items stops c))
    (hquote : quote = '"' ∨ quote = '\'') (hahead : c.ahead = quote :: (body ++ rest))
    (hbody : Escaped [quote, '\n'] body) (hrest : quotedTail quote rest = none) :
    SourceTree.ofChars text = .error ⟨.unterminatedString, c.offset⟩ := by
  refine h.fails (ScanPlace.fails_of_broken ?_)
  rw [hahead]
  exact Lexeme.read_unterminated h.sound.2 _ hquote hbody hrest

section
variable {source : String}

theorem SourceTree.literal_quoted {tree : SourceTree} (h : SourceTree.ofSource source = .ok tree)
    {item : Expr} (hitem : item ∈ tree.items) {range : TextRange}
    (hpart : (Expr.literal range).PartOf item) : ∃ cs, range.Holds source.toList cs ∧
      ∀ quote, QuotedBy quote cs →
        ∃ body, cs = quote :: (body ++ [quote]) ∧ Escaped [quote, '\n'] body := by
  obtain ⟨stops, c, n, hc, ⟨hread, ⟨⟩⟩ | ⟨_, ⟨⟩⟩⟩ := SourceTree.leaf_readIn h hitem rfl hpart
  have hholds := hc.sound.1.holds (.advance c (Cursor.fits_of_read hread).2)
  have hfront := Lexeme.itemFront_of_read hread rfl
  exact ⟨_, hholds, fun _ hquoted => Lexeme.quoted_of_ofItem hfront.item hquoted⟩

theorem Visited.regular_newline {opened : Nat} {pending c : Cursor}
    (h : Visited source.toList (.segments .regular opened pending c))
    (hnewline : c.ahead.head? = some '\n') :
    (∃ rest, source.toList.drop opened = '$' :: '"' :: rest) ∧
      SourceTree.ofSource source = .error ⟨.unterminatedString, opened⟩ := by
  constructor
  · obtain ⟨-, marker, hopening⟩ := h.sound
    rcases opening?_cases hopening with ⟨hkind, -⟩ | ⟨_, _, hkind, -⟩ | ⟨-, -, hrest⟩
    · cases hkind
    · cases hkind
    · exact hrest
  · obtain ⟨rest, hahead⟩ := List.head?_eq_some_iff.mp hnewline
    exact h.fails (ScanPlace.fails_of_broken_text (by rw [hahead, StringPart.read]))

theorem Visited.literal_newline {stops : List Char} {c : Cursor} {quote : Char}
    {body rest : List Char} (h : Visited source.toList (.items stops c))
    (hquote : quote = '"' ∨ quote = '\'') (hahead : c.ahead = quote :: (body ++ '\n' :: rest))
    (hbody : Escaped [quote, '\n'] body) :
    SourceTree.ofSource source = .error ⟨.unterminatedString, c.offset⟩ :=
  h.unterminated hquote hahead hbody (by simp [quotedTail])

end

/-- In a text that can be scanned, a newline in a regular string or in a literal of one line is
escaped. Any other one that the scanner meets there makes the string unterminated. -/
theorem SourceTree.newlines_escaped (source : String) :
    (∀ tree, SourceTree.ofSource source = .ok tree →
      (∀ node ∈ tree.nodes, node.kind = .regular → ∀ written range,
        .text written range ∈ node.segments → Escaped ['"', '\n'] written.toList) ∧
      ∀ item ∈ tree.items, ∀ range, (Expr.literal range).PartOf item →
        ∃ cs, range.Holds source.toList cs ∧ ∀ quote, QuotedBy quote cs →
          ∃ body, cs = quote :: (body ++ [quote]) ∧ Escaped [quote, '\n'] body) ∧
    (∀ opened pending c, Visited source.toList (.segments .regular opened pending c) →
      c.ahead.head? = some '\n' → (∃ rest, source.toList.drop opened = '$' :: '"' :: rest) ∧
        SourceTree.ofSource source = .error ⟨.unterminatedString, opened⟩) ∧
    ∀ stops c quote body rest, Visited source.toList (.items stops c) →
      quote = '"' ∨ quote = '\'' → c.ahead = quote :: (body ++ '\n' :: rest) →
      Escaped [quote, '\n'] body →
      SourceTree.ofSource source = .error ⟨.unterminatedString, c.offset⟩ := by
  refine ⟨fun tree htree => ⟨?_, ?_⟩, ?_, ?_⟩
  · intro node hnode hkind written range hmem
    obtain ⟨before, after, hsplit⟩ := List.append_of_mem hmem
    have hplain := (SourceTree.readFrom htree node hnode).plain hsplit
    rw [hkind] at hplain
    exact hplain.escaped
  · intro item hitem range hpart
    exact SourceTree.literal_quoted htree hitem hpart
  · intro opened pending c hplace hnewline
    exact hplace.regular_newline hnewline
  · intro stops c quote body rest hplace hquote hahead hbody
    exact hplace.literal_newline hquote hahead hbody

/-- A newline in a regular string, and one behind an escaped one in a character literal. -/
theorem SourceTree.newlines_escaped_or_unterminated :
    SourceTree.ofSource "$\"a\n\"" = .error ⟨.unterminatedString, 0⟩ ∧
    SourceTree.ofSource "('\\\n\n'" = .error ⟨.unterminatedString, 1⟩ := by
  constructor
  · have hplace := (@Visited.start "$\"a\n\"".toList).step (.segments rfl)
    have hnewline := hplace.step (.text rfl)
    exact ((SourceTree.newlines_escaped _).2.1 _ _ _ hnewline rfl).2
  · have hplace := (@Visited.start "('\\\n\n'".toList).step (.children rfl)
    exact (SourceTree.newlines_escaped _).2.2 _ _ '\'' ['\\', '\n'] ['\''] hplace (.inr rfl) rfl
      (.pair '\n' .nil)

/-- A backslash carries a regular string and literals of both kinds over a line end. -/
theorem SourceTree.newline_behind_backslash :
    (∃ tree, SourceTree.ofSource "$\"\\\n\"" = .ok tree ∧ ∃ node ∈ tree.nodes,
      node.kind = .regular ∧ ∃ written range, .text written range ∈ node.segments ∧
        '\n' ∈ written.toList) ∧
    ∃ tree, SourceTree.ofSource "\"\\\n\"'\\\n'" = .ok tree ∧
      (∃ range cs, .literal range ∈ tree.items ∧ range.Holds "\"\\\n\"'\\\n'".toList cs ∧
        QuotedBy '"' cs ∧ '\n' ∈ cs) ∧
      ∃ range cs, .literal range ∈ tree.items ∧ range.Holds "\"\\\n\"'\\\n'".toList cs ∧
        QuotedBy '\'' cs ∧ '\n' ∈ cs := by
  constructor
  · have hscan : SourceTree.ofSource "$\"\\\n\"" =
        .ok ⟨[.interpolated ⟨0, .regular, ⟨0, 5⟩, ⟨2, 4⟩, [.text "\\\n" ⟨2, 4⟩]⟩],
          LineIndex.ofChars "$\"\\\n\"".toList⟩ := rfl
    exact ⟨_, hscan, _, List.mem_singleton_self _, rfl, "\\\n", ⟨2, 4⟩, List.mem_singleton_self _,
      by decide⟩
  · have hscan : SourceTree.ofSource "\"\\\n\"'\\\n'" =
        .ok ⟨[.literal ⟨0, 4⟩, .literal ⟨4, 8⟩], LineIndex.ofChars "\"\\\n\"'\\\n'".toList⟩ := rfl
    refine ⟨_, hscan, ⟨_, ['"', '\\', '\n', '"'], .head _, ?_, ?_, by decide⟩,
      ⟨_, ['\'', '\\', '\n', '\''], .tail _ (.head _), ?_, ?_, by decide⟩⟩
    · exact ⟨[], ['\'', '\\', '\n', '\''], rfl, rfl⟩
    · exact ⟨rfl, .inl ⟨rfl, by decide⟩⟩
    · exact ⟨['"', '\\', '\n', '"'], [], rfl, rfl⟩
    · exact ⟨rfl, .inr rfl⟩

end InterpolationLint
