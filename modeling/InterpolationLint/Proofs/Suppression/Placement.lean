import InterpolationLint.Proofs.Suppression.Directive
import InterpolationLint.Proofs.Scan.Lexeme

/-!
# What stands beside a directive

A plain directive covers the next line if only blanks stand before its comment, and its own line
otherwise. What stands behind the comment is not looked at, and a byte order mark before it counts as
text. So the scope tells whether the comment is alone on its line in all but two cases: a block
comment before other text is taken to be alone, and one behind a byte order mark is not.
-/

namespace InterpolationLint

/-! ## The directive of a line -/

inductive CommentForm where
  | line
  | block
deriving DecidableEq, Repr

def CommentForm.find? : CommentForm → List Char → Option DirectiveComment
  | line => lineDirective?
  | block => blockDirective?

/-- The directive that counts on line `number`: that of a line comment, or that of a block comment
if there is none in a line comment, or it is not honoured. -/
inductive DirectiveComment.CountsOn (number : Nat) (header : Bool) (line : List Char) :
    CommentForm → DirectiveComment → Prop
  | inLine {d} : lineDirective? line = some d → d.Honoured number header →
      CountsOn number header line .line d
  | inBlock {d} : (∀ other, lineDirective? line = some other → ¬ other.Honoured number header) →
      blockDirective? line = some d → d.Honoured number header →
      CountsOn number header line .block d

theorem DirectiveComment.CountsOn.find? {number : Nat} {header : Bool} {line : List Char}
    {form : CommentForm} {d : DirectiveComment} (h : CountsOn number header line form d) :
    form.find? line = some d := by
  cases h with
  | inLine hd _ => exact hd
  | inBlock _ hd _ => exact hd

namespace Suppression

theorem ofLine?_eq_some_iff {file : String} {number : Nat} {header : Bool} {line : List Char}
    {s : Suppression} : ofLine? file number header line = some s ↔
      ∃ form d, DirectiveComment.CountsOn number header line form d ∧
        s = d.suppression file number := by
  unfold ofLine?
  simp only [Option.or_eq_some_iff, Option.bind_eq_some_iff, Option.bind_eq_none_iff,
    ofDirective?_eq_some_iff]
  constructor
  · rintro (⟨d, hd, hhonoured, rfl⟩ | ⟨hnone, d, hd, hhonoured, rfl⟩)
    · exact ⟨.line, d, .inLine hd hhonoured, rfl⟩
    · refine ⟨.block, d, .inBlock ?_ hd hhonoured, rfl⟩
      intro other hother hhonoured'
      have hsome := ofDirective?_eq_some_iff.mpr ⟨hhonoured', @rfl _ (other.suppression file number)⟩
      rw [hnone other hother] at hsome
      cases hsome
  · rintro ⟨form, d, hcounts, rfl⟩
    cases hcounts with
    | inLine hd hhonoured => exact .inl ⟨d, hd, hhonoured, rfl⟩
    | inBlock hnone hd hhonoured =>
      refine .inr ⟨?_, d, hd, hhonoured, rfl⟩
      intro other hother
      rw [Option.eq_none_iff_forall_ne_some]
      intro s hs
      exact hnone other hother (ofDirective?_eq_some_iff.mp hs).1

/-- A line gives a suppression by itself, apart from the header that it may belong to. -/
theorem mem_ofLines_iff {file : String} {s : Suppression} {number : Nat} {header : Bool}
    {lines : List (List Char)} : s ∈ ofLines file number header lines ↔
      ∃ i line, lines[i]? = some line ∧
        ofLine? file (number + i) (header && (lines.take (i + 1)).all isHeaderLine) line = some s := by
  induction lines generalizing number header with
  | nil => simp [ofLines]
  | cons first lines ih =>
    have hnext : ∀ i line, ofLine? file (number + (i + 1))
        (header && ((first :: lines).take (i + 1 + 1)).all isHeaderLine) line =
          ofLine? file (number + 1 + i)
            (header && isHeaderLine first && (lines.take (i + 1)).all isHeaderLine) line := by
      intro i line
      rw [List.take_succ_cons, List.all_cons, Bool.and_assoc, Nat.add_assoc, Nat.add_comm 1 i]
    rw [ofLines, List.mem_append, Option.mem_toList, ih]
    constructor
    · rintro (hs | ⟨i, line, hline, hs⟩)
      · exact ⟨0, first, rfl, by simpa using hs⟩
      · exact ⟨i + 1, line, hline, (hnext i line).trans hs⟩
    · rintro ⟨i, line, hline, hs⟩
      cases i with
      | zero =>
        cases hline
        exact .inl (by simpa using hs)
      | succ i => exact .inr ⟨i, line, hline, (hnext i line).symm.trans hs⟩

end Suppression

def DirectiveComment.On (text : List Char) (number : Nat) (line : List Char) (form : CommentForm)
    (d : DirectiveComment) : Prop :=
  ∃ i, number = i + 1 ∧ (splitLines text)[i]? = some line ∧
    d.CountsOn number (((splitLines text).take number).all isHeaderLine) line form

theorem Suppression.mem_ofChars_iff {file : String} {text : List Char} {s : Suppression} :
    s ∈ ofChars file text ↔ ∃ number line form d,
      DirectiveComment.On text number line form d ∧ s = d.suppression file number := by
  unfold ofChars
  simp only [mem_ofLines_iff, ofLine?_eq_some_iff, Bool.true_and]
  constructor
  · rintro ⟨i, line, hline, form, d, hcounts, rfl⟩
    rw [Nat.add_comm] at hcounts ⊢
    exact ⟨i + 1, line, form, d, ⟨i, rfl, hline, hcounts⟩, rfl⟩
  · rintro ⟨_, line, form, d, ⟨i, rfl, hline, hcounts⟩, rfl⟩
    refine ⟨i, line, hline, form, d, ?_⟩
    rw [Nat.add_comm 1 i]
    exact ⟨hcounts, rfl⟩

/-! ## The end of a comment -/

/-- A comment on a line, and what stands behind it: a line comment runs to the end of its line, and
a block comment to the first closing behind its opening. -/
inductive CommentForm.Ends : CommentForm → List Char → List Char → Prop
  | line (body : List Char) : Ends .line ('/' :: '/' :: body) []
  | block {body after : List Char} : blockCommentTail (body ++ after) = some body.length →
      Ends .block ('/' :: '*' :: body) after

theorem isSome_blockCommentTail_cons {c : Char} {cs : List Char}
    (h : (blockCommentTail cs).isSome = true) : (blockCommentTail (c :: cs)).isSome = true := by
  unfold blockCommentTail
  split
  · cases ‹c :: cs = []›
  · rfl
  · obtain ⟨rfl, rfl⟩ := List.cons.inj ‹c :: cs = _ :: _›
    rw [Option.isSome_map]
    exact h

theorem isSome_blockCommentTail_of_suffix {cs more : List Char} (hsuffix : cs <:+ more)
    (h : (blockCommentTail cs).isSome = true) : (blockCommentTail more).isSome = true := by
  obtain ⟨front, rfl⟩ := hsuffix
  induction front with
  | nil => exact h
  | cons c front ih => exact isSome_blockCommentTail_cons ih

theorem isSome_beforeClose? (cs : List Char) :
    (beforeClose? cs).isSome = (blockCommentTail cs).isSome := by
  fun_induction blockCommentTail cs with
  | case1 => rfl
  | case2 => rfl
  | case3 c rest hclose ih =>
    rw [beforeClose?, Option.isSome_map, Option.isSome_map, ih]
    exact hclose

/-- The rule and the reason of a block comment are followed by its closing. -/
theorem closed_of_blockFields? {cs : List Char} {fields : List Char × List Char}
    (h : blockFields? cs = some fields) : (blockCommentTail cs).isSome = true := by
  induction cs generalizing fields with
  | nil => cases h
  | cons c cs ih =>
    rw [blockFields?] at h
    split at h
    · cases h
    · apply isSome_blockCommentTail_cons
      cases hend : blockEnd? cs with
      | some reason =>
        refine isSome_blockCommentTail_of_suffix (List.dropWhile_suffix isBlank) ?_
        unfold blockEnd? trimStart at hend
        split at hend
        · rename_i hyphen rest htrim
          rw [htrim]
          apply isSome_blockCommentTail_cons
          rw [← isSome_beforeClose?, ← Option.isSome_map, hend]
          rfl
        · rename_i rest htrim
          rw [htrim]
          rfl
        · cases hend
      | none =>
        rw [hend] at h
        obtain ⟨fields', hfields, -⟩ := Option.map_eq_some_iff.mp h
        exact ih hfields

theorem afterFront?_suffix {front : String} {cs rest : List Char}
    (h : afterFront? front cs = some rest) : rest <:+ cs := by
  rw [afterFront?_eq_some_iff.mp h]
  exact List.suffix_append _ rest

theorem Keyword.read?_suffix {cs : List Char} {found : Keyword × List Char}
    (h : Keyword.read? cs = some found) : found.2 <:+ cs := by
  obtain ⟨rest, hrest, h⟩ := Option.bind_eq_some_iff.mp h
  refine List.IsSuffix.trans ?_ (afterFront?_suffix hrest)
  split at h
  · cases h
    exact afterFront?_suffix ‹_›
  · cases h
    exact afterFront?_suffix ‹_›
  · cases h
    exact List.suffix_refl rest

theorem directiveHead?_suffix {cs : List Char} {found : Keyword × List Char}
    (h : directiveHead? cs = some found) : found.2 <:+ cs := by
  obtain ⟨rest, hrest, h⟩ := Option.bind_eq_some_iff.mp h
  obtain ⟨⟨keyword, behind⟩, hread, h⟩ := Option.bind_eq_some_iff.mp h
  obtain ⟨-, h⟩ := Option.ite_none_right_eq_some.mp h
  cases h
  calc trimStart behind
    _ <:+ behind := List.dropWhile_suffix isBlank
    _ <:+ rest := Keyword.read?_suffix hread
    _ <:+ trimStart cs := afterFront?_suffix hrest
    _ <:+ cs := List.dropWhile_suffix isBlank

/-- A directive is found in a comment that ends on its line. -/
theorem CommentForm.exists_ends {form : CommentForm} {line : List Char} {d : DirectiveComment}
    (h : form.find? line = some d) :
    ∃ comment after, line = d.before ++ (comment ++ after) ∧ form.Ends comment after := by
  cases form with
  | line =>
    obtain ⟨rest, rfl, hhere⟩ := findDirective?_eq_some h
    obtain ⟨body, hbody, -⟩ := Option.bind_eq_some_iff.mp hhere
    obtain rfl : rest = '/' :: '/' :: body := afterFront?_eq_some_iff.mp hbody
    exact ⟨_, [], by rw [List.append_nil], .line body⟩
  | block =>
    obtain ⟨rest, rfl, hhere⟩ := findDirective?_eq_some h
    obtain ⟨inside, hinside, hhere⟩ := Option.bind_eq_some_iff.mp hhere
    obtain ⟨⟨keyword, behind⟩, hhead, hhere⟩ := Option.bind_eq_some_iff.mp hhere
    obtain ⟨fields, hfields, -⟩ := Option.bind_eq_some_iff.mp hhere
    obtain rfl : rest = '/' :: '*' :: inside := afterFront?_eq_some_iff.mp hinside
    have hclosed := isSome_blockCommentTail_of_suffix (directiveHead?_suffix hhead)
      (closed_of_blockFields? hfields)
    obtain ⟨n, hn⟩ := Option.isSome_iff_exists.mp hclosed
    refine ⟨'/' :: '*' :: inside.take n, inside.drop n, by simp, .block ?_⟩
    rw [List.take_append_drop, List.length_take, Nat.min_eq_left (blockCommentTail_le hn), hn]

/-! ## Directives alone on their lines -/

/-- Before the comment, on the first line of a text, stand a byte order mark and blanks. -/
def BehindMark (number : Nat) (before : List Char) : Prop :=
  number = 1 ∧ ∃ blanks, before = byteOrderMark :: blanks ∧ blanks.all isBlank = true

/-- On its line a comment has blanks beside it only, or the byte order mark of the text. -/
def AloneOn (number : Nat) (before after : List Char) : Prop :=
  (before.all isBlank = true ∨ BehindMark number before) ∧ after.all isBlank = true

theorem BehindMark.not_blank {number : Nat} {before : List Char} (h : BehindMark number before) :
    before.all isBlank = false := by
  obtain ⟨-, blanks, rfl, -⟩ := h
  rw [List.all_cons, (by decide : isBlank byteOrderMark = false), Bool.false_and]

/-- Blanks before a comment tell whether it is alone, unless it stands behind a byte order mark or
before other text. -/
theorem blank_iff_aloneOn_iff {number : Nat} {before after : List Char} :
    (before.all isBlank = true ↔ AloneOn number before after) ↔
      ¬(BehindMark number before ∧ after.all isBlank = true) ∧
      ¬(before.all isBlank = true ∧ after.all isBlank = false) := by
  unfold AloneOn
  by_cases hbefore : before.all isBlank = true
  · have hmark : ¬BehindMark number before := by
      intro hmark
      rw [hmark.not_blank] at hbefore
      cases hbefore
    simp [hbefore, hmark]
  · simp [hbefore]

theorem CommentForm.Ends.block_of_after {form : CommentForm} {comment after : List Char}
    (h : form.Ends comment after) (hafter : after.all isBlank = false) : form = .block := by
  cases h with
  | line => cases hafter
  | block => rfl

theorem DirectiveComment.scope_of_ignore {d : DirectiveComment} (h : d.keyword = .ignore)
    (file : String) (number : Nat) : (d.suppression file number).scope =
      if d.before.all isBlank then .nextLine else .line := by
  simp [suppression, h]

namespace Suppression

/-- Every suppression comes from a directive that counts on its line. A plain one covers the next
line if only blanks stand before its comment, and else its own. This tells whether the comment is
alone on its line, except for a block comment between blanks and other text, and for a comment alone
behind a byte order mark. -/
theorem ofSource_placement (file content : String) :
    (∀ s, s ∈ ofSource file content ↔ ∃ number line form d,
      DirectiveComment.On content.toList number line form d ∧ s = d.suppression file number) ∧
    ∀ number line form d, DirectiveComment.On content.toList number line form d →
      d.keyword = .ignore →
      ∃ comment after, line = d.before ++ (comment ++ after) ∧ form.Ends comment after ∧
        ((d.suppression file number).scope = .nextLine ↔ d.before.all isBlank = true) ∧
        ((d.suppression file number).scope = .line ↔ d.before.all isBlank = false) ∧
        (((d.suppression file number).scope = .nextLine ↔ AloneOn number d.before after) ↔
          ¬(BehindMark number d.before ∧ after.all isBlank = true) ∧
          ¬(form = .block ∧ d.before.all isBlank = true ∧ after.all isBlank = false)) := by
  refine ⟨fun s => mem_ofChars_iff, ?_⟩
  rintro number line form d ⟨i, -, -, hcounts⟩ hkeyword
  obtain ⟨comment, after, hline, hends⟩ := CommentForm.exists_ends hcounts.find?
  have hnext : (d.suppression file number).scope = .nextLine ↔ d.before.all isBlank = true := by
    rw [DirectiveComment.scope_of_ignore hkeyword]
    cases d.before.all isBlank <;> simp
  have hown : (d.suppression file number).scope = .line ↔ d.before.all isBlank = false := by
    rw [DirectiveComment.scope_of_ignore hkeyword]
    cases d.before.all isBlank <;> simp
  have hblock : form = .block ∧ d.before.all isBlank = true ∧ after.all isBlank = false ↔
      d.before.all isBlank = true ∧ after.all isBlank = false :=
    and_iff_right_of_imp fun h => hends.block_of_after h.2
  refine ⟨comment, after, hline, hends, hnext, hown, ?_⟩
  rw [hnext, hblock]
  exact blank_iff_aloneOn_iff

/-- Too late for the directive of the line comment, so that the block comment before it counts. -/
theorem ofSource_placement_late : ∃ line d,
    DirectiveComment.On
      "\nx\n\n\n\n\n\n\n\n\n/* interpcheck:ignore * */ // interpcheck:ignore-file *".toList
      11 line .block d ∧
    d.keyword = .ignore ∧
    (∃ comment after, line = d.before ++ (comment ++ after) ∧
      CommentForm.block.Ends comment after) ∧
    (d.suppression "a.cs" 11).scope = .nextLine := by
  have hon : DirectiveComment.On
      "\nx\n\n\n\n\n\n\n\n\n/* interpcheck:ignore * */ // interpcheck:ignore-file *".toList
      11 "/* interpcheck:ignore * */ // interpcheck:ignore-file *".toList .block
      ⟨[], .ignore, ['*'], []⟩ := by
    refine ⟨10, rfl, by decide +kernel, .inBlock ?_ (by decide +kernel) nofun⟩
    intro other hother hhonoured
    have hlate : (((lineDirective?
        "/* interpcheck:ignore * */ // interpcheck:ignore-file *".toList).map (·.keyword))) =
          some .ignoreFile := by
      decide +kernel
    rw [hother] at hlate
    rcases hhonoured (Option.some.inj hlate) with hheader | hnumber
    · exact absurd hheader (by decide +kernel)
    · exact absurd hnumber (by decide)
  obtain ⟨comment, after, hline, hends, hnext, -, -⟩ :=
    (ofSource_placement "a.cs" _).2 _ _ _ _ hon rfl
  exact ⟨_, _, hon, rfl, ⟨comment, after, hline, hends⟩, hnext.mpr rfl⟩

/-- Code behind a block comment does not make its directive cover the line of the code. -/
theorem ofSource_placement_before_code : ∃ comment after,
    "/* interpcheck:ignore * */ $\"\"".toList = comment ++ after ∧
    CommentForm.block.Ends comment after ∧ after = " $\"\"".toList ∧ ¬AloneOn 1 [] after ∧
    ofSource "a.cs" "/* interpcheck:ignore * */ $\"\"" = [⟨"*", "", "a.cs", 1, .nextLine⟩] := by
  refine ⟨"/* interpcheck:ignore * */".toList, _, by decide +kernel, ?_, rfl, ?_, by decide +kernel⟩
  · exact .block (by decide +kernel)
  · rintro ⟨-, hafter⟩
    exact absurd hafter (by decide +kernel)

end Suppression

end InterpolationLint
