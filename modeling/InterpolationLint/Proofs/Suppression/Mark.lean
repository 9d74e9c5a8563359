import InterpolationLint.Proofs.Suppression.Directive

/-!
# Directives behind a byte order mark

A byte order mark is passed over when the header of a file is looked for, but on its line it is no
blank. So the one thing it changes is a plain directive that stands alone on the first line: with a
mark before it, it covers its own line instead of the next one.
-/

namespace InterpolationLint

theorem splitLines_mark (text : List Char) : splitLines (byteOrderMark :: text) =
    (byteOrderMark :: firstLine text) :: (splitLines text).tail := by
  apply splitLines_cons
  · decide
  · nofun

theorem isHeaderLine_mark (line : List Char) :
    isHeaderLine (byteOrderMark :: line) = isHeaderLine line := by
  simp [isHeaderLine]

def DirectiveComment.marked (d : DirectiveComment) : DirectiveComment :=
  { d with before := byteOrderMark :: d.before }

theorem findDirective?_mark {opening : String}
    {fields? : List Char → Option (List Char × List Char)}
    (h : opening.toList.head?.any (· ≠ byteOrderMark)) (line : List Char) :
    findDirective? opening fields? (byteOrderMark :: line) =
      (findDirective? opening fields? line).map (·.marked) := by
  have hhere : directiveHere? opening fields? (byteOrderMark :: line) = none := by
    rw [Option.eq_none_iff_forall_ne_some]
    intro d hd
    obtain ⟨rest, heq, -⟩ := directiveHere?_marker hd
    cases hopening : opening.toList with
    | nil => simp [hopening] at h
    | cons c cs => simp_all
  rw [findDirective?, hhere]
  rfl

theorem directive?_mark (line : List Char) :
    directive? (byteOrderMark :: line) = (directive? line).map (·.marked) := by
  unfold directive? lineDirective? blockDirective?
  rw [findDirective?_mark (by decide), findDirective?_mark (by decide), Option.map_or]

theorem DirectiveComment.suppression_marked (d : DirectiveComment) (file : String) (number : Nat) :
    d.marked.suppression file number =
      if d.keyword = .ignore then { d.suppression file number with scope := .line }
      else d.suppression file number := by
  have hblank : isBlank byteOrderMark = false := by decide
  unfold suppression marked
  cases d.keyword <;> simp [hblank]

theorem DirectiveComment.suppression_marked_eq_iff (d : DirectiveComment) (file : String)
    (number : Nat) : d.marked.suppression file number = d.suppression file number ↔
      (d.keyword = .ignore → d.before.all isBlank = false) := by
  rw [suppression_marked]
  by_cases hkeyword : d.keyword = .ignore
  · rw [if_pos hkeyword]
    unfold suppression
    by_cases hbefore : d.before.all isBlank <;> simp [hkeyword, hbefore]
  · simp [hkeyword]

namespace Suppression

theorem ofChars_eq (file : String) (text : List Char) : ofChars file text =
    (ofLine? file 1 (isHeaderLine (firstLine text)) (firstLine text)).toList ++
      ofLines file 2 (isHeaderLine (firstLine text)) (splitLines text).tail := by
  unfold ofChars firstLine
  cases splitLines text with
  | nil => rfl
  | cons line lines => simp [ofLines]

theorem ofLine?_first (file : String) (header : Bool) (line : List Char) :
    ofLine? file 1 header line = (directive? line).map (·.suppression file 1) := by
  cases hd : directive? line with
  | none => exact ofLine?_of_none hd file 1 header
  | some d => exact ofLine?_of_directive hd (fun _ => by decide) file header

theorem ofChars_mark (file : String) (text : List Char) : ofChars file (byteOrderMark :: text) =
    ((directive? (firstLine text)).map (·.marked.suppression file 1)).toList ++
      ofLines file 2 (isHeaderLine (firstLine text)) (splitLines text).tail := by
  rw [ofChars, splitLines_mark, ofLines, isHeaderLine_mark, ofLine?_first, directive?_mark,
    Option.map_map]
  rfl

/-- A byte order mark makes no difference to the suppressions of a text, unless a plain directive
stands alone on its first line. Such a directive covers the next line without the mark, and its own
line with it. -/
theorem ofSource_mark_iff (file text : String) :
    (ofSource file ("\ufeff" ++ text) = ofSource file text ↔
      ∀ d, directive? (firstLine text.toList) = some d → d.keyword = .ignore →
        d.before.all isBlank = false) ∧
    ∀ d, directive? (firstLine text.toList) = some d → d.keyword = .ignore →
      d.before.all isBlank = true →
      (d.suppression file 1).scope = .nextLine ∧
      ∃ rest, ofSource file text = d.suppression file 1 :: rest ∧
        ofSource file ("\ufeff" ++ text) =
          { d.suppression file 1 with scope := .line } :: rest := by
  have hchars : ("\ufeff" ++ text).toList = byteOrderMark :: text.toList := by
    rw [String.toList_append]
    rfl
  unfold ofSource
  rw [hchars, ofChars_mark, ofChars_eq, ofLine?_first]
  cases hd : directive? (firstLine text.toList) with
  | none => simp
  | some d =>
    simp only [Option.map_some, Option.toList_some, List.singleton_append, List.cons.injEq,
      and_true, Option.some.injEq, forall_eq']
    refine ⟨d.suppression_marked_eq_iff file 1, ?_⟩
    intro hkeyword hblank
    refine ⟨?_, _, ⟨trivial, rfl⟩, ?_, rfl⟩
    · simp [DirectiveComment.suppression, hkeyword, hblank]
    · rw [DirectiveComment.suppression_marked, if_pos hkeyword]

theorem ofSource_mark_alone :
    ofSource "a.cs" "// interpcheck:ignore *\n$\"\"" = [⟨"*", "", "a.cs", 1, .nextLine⟩] ∧
    ofSource "a.cs" ("\ufeff" ++ "// interpcheck:ignore *\n$\"\"") =
      [⟨"*", "", "a.cs", 1, .line⟩] := by
  decide +kernel

end Suppression

end InterpolationLint
