import InterpolationLint.Proofs.Suppression.Placement

/-!
# Line by line

The search for directives goes through a file with one bit of memory, whether all lines so far belong
to the header. So the suppressions of a file are those of its lines side by side, and a line gives
one or none by its own text, its number and that bit.
-/

namespace InterpolationLint

/-! ## The header -/

/-- Without byte order marks before it and blanks around it, the line is empty or begins like a
comment. -/
def HeaderLine (line : List Char) : Prop :=
  trim (line.dropWhile (· == byteOrderMark)) = [] ∨
    ∃ opening ∈ ["//", "/*", "*"],
      opening.toList <+: trim (line.dropWhile (· == byteOrderMark))

theorem isHeaderLine_iff (line : List Char) : isHeaderLine line = true ↔ HeaderLine line := by
  unfold isHeaderLine HeaderLine
  generalize trim (line.dropWhile (· == byteOrderMark)) = rest
  split
  · simp
  · simp
  · simp
  · simp
  · rename_i hempty hline hblock hstar
    simp only [Bool.false_eq_true, false_iff]
    intro h
    rcases h with h | ⟨opening, hopening, after, rfl⟩
    · exact hempty h
    · simp only [List.mem_cons, List.not_mem_nil, or_false] at hopening
      rcases hopening with rfl | rfl | rfl
      · exact hline after rfl
      · exact hblock after rfl
      · exact hstar after rfl

def inHeader (lines : List (List Char)) (number : Nat) : Bool := (lines.take number).all isHeaderLine

theorem inHeader_iff (lines : List (List Char)) (number : Nat) :
    inHeader lines number = true ↔ ∀ line ∈ lines.take number, HeaderLine line := by
  simp [inHeader, isHeaderLine_iff]

theorem inHeader_append (before rest : List (List Char)) (line : List Char) :
    inHeader (before ++ line :: rest) (before.length + 1) =
      (before.all isHeaderLine && isHeaderLine line) := by
  rw [inHeader, List.take_length_add_append]
  simp

/-! ## One line -/

def CommentForm.other : CommentForm → CommentForm
  | line => block
  | block => line

theorem DirectiveComment.scope_suppression_eq_file_iff (d : DirectiveComment) (file : String)
    (number : Nat) : (d.suppression file number).scope = .file ↔ d.keyword = .ignoreFile := by
  unfold suppression
  cases d.keyword with
  | ignore => by_cases hbefore : d.before.all isBlank <;> simp [hbefore]
  | ignoreNextLine => simp
  | ignoreFile => simp

namespace Suppression

/-- What line `number` contributes, in or behind the header: the suppression of the directive that
counts there. A directive for the whole file that comes too late gives nothing, unless there is
another on the line. -/
structure Contributes (file : String) (number : Nat) (header : Bool) (line : List Char)
    (contribution : Option Suppression) : Prop where
  counts : ∀ s, contribution = some s ↔
    ∃ form d, DirectiveComment.CountsOn number header line form d ∧ s = d.suppression file number
  late : ∀ form d, CommentForm.find? form line = some d → d.keyword = .ignoreFile →
    header = false → lastFileDirectiveLine < number → form.other.find? line = none →
    contribution = none
  line : ∀ s, contribution = some s → s.line = if s.scope = .file then 0 else number

theorem ofDirective?_of_late {d : DirectiveComment} (h : d.keyword = .ignoreFile) {number : Nat}
    (hnumber : lastFileDirectiveLine < number) (file : String) :
    ofDirective? file number false d = none := by
  simp [ofDirective?, h, hnumber]

theorem contributes_ofLine? (file : String) (number : Nat) (header : Bool) (line : List Char) :
    Contributes file number header line (ofLine? file number header line) where
  counts := fun s => ofLine?_eq_some_iff
  late := by
    intro form d hfind hkeyword hheader hnumber hother
    subst hheader
    have hlate := ofDirective?_of_late hkeyword hnumber file
    cases form with
    | line =>
      have hline : lineDirective? line = some d := hfind
      have hblock : blockDirective? line = none := hother
      simp [ofLine?, hline, hblock, hlate]
    | block =>
      have hblock : blockDirective? line = some d := hfind
      have hline : lineDirective? line = none := hother
      simp [ofLine?, hline, hblock, hlate]
  line := by
    intro s hs
    obtain ⟨form, d, -, rfl⟩ := ofLine?_eq_some_iff.mp hs
    simp only [DirectiveComment.scope_suppression_eq_file_iff]
    rfl

/-! ## All lines -/

theorem ofLines_eq_filterMap (file : String) : ∀ before rest : List (List Char),
    ofLines file (before.length + 1) (before.all isHeaderLine) rest =
      (rest.zipIdx (before.length + 1)).filterMap fun entry =>
        ofLine? file entry.2 (inHeader (before ++ rest) entry.2) entry.1
  | before, [] => rfl
  | before, line :: rest => by
    have hrest := ofLines_eq_filterMap file (before ++ [line]) rest
    simp only [List.length_append, List.length_singleton, List.all_append, List.all_cons,
      List.all_nil, Bool.and_true, List.append_assoc, List.singleton_append] at hrest
    rw [ofLines, List.zipIdx_cons, List.filterMap_cons, inHeader_append, hrest]
    cases ofLine? file (before.length + 1) (before.all isHeaderLine && isHeaderLine line) line with
    | none => rfl
    | some s => rfl

theorem ofSource_eq_filterMap (file content : String) : ofSource file content =
    ((splitLines content.toList).zipIdx 1).filterMap fun entry =>
      ofLine? file entry.2 (inHeader (splitLines content.toList) entry.2) entry.1 :=
  ofLines_eq_filterMap file [] (splitLines content.toList)

/-- In a list that has one entry or none for each line, entries for single lines stand in the order
of these lines. -/
theorem pairwise_line_filterMap {lines : List (List Char)}
    {contribution : List Char × Nat → Option Suppression}
    (h : ∀ entry s, contribution entry = some s → s.line = if s.scope = .file then 0 else entry.2) :
    (((lines.zipIdx 1).filterMap contribution).filter (·.scope ≠ .file)).Pairwise
      fun s t => s.line < t.line := by
  have hnumbers : (lines.zipIdx 1).Pairwise fun a b => a.2 < b.2 := by
    rw [← List.pairwise_map (f := Prod.snd), List.zipIdx_map_snd]
    exact List.pairwise_lt_range'
  rw [List.pairwise_filter]
  apply hnumbers.filterMap
  intro a b hab s hs t ht hsingle hsingle'
  have hscope : s.scope ≠ .file := by simpa using hsingle
  have hscope' : t.scope ≠ .file := by simpa using hsingle'
  rw [h a s hs, h b t ht, if_neg hscope, if_neg hscope']
  exact hab

/-- The suppressions of any file are the contributions of its lines, one or none for each of them
and in their order. The contribution of a line depends on nothing but its text, its number and
whether the header reaches to it. So suppressions of single lines have increasing line numbers. -/
theorem ofSource_line_by_line (file : String) :
    ∃ contribution : Nat → Bool → List Char → Option Suppression,
      (∀ number header line,
        Contributes file number header line (contribution number header line)) ∧
      ∀ content : String,
        (ofSource file content = ((splitLines content.toList).zipIdx 1).filterMap
          fun (line, number) =>
            contribution number (inHeader (splitLines content.toList) number) line) ∧
        (∀ number, inHeader (splitLines content.toList) number = true ↔
          ∀ line ∈ (splitLines content.toList).take number, HeaderLine line) ∧
        ((ofSource file content).filter (·.scope ≠ .file)).Pairwise
          fun s t => s.line < t.line := by
  refine ⟨ofLine? file, contributes_ofLine? file, fun content => ?_⟩
  have heq := ofSource_eq_filterMap file content
  refine ⟨heq, inHeader_iff _, ?_⟩
  rw [heq]
  apply pairwise_line_filterMap
  intro entry s hs
  exact (contributes_ofLine? file entry.2 _ entry.1).line s hs

end Suppression

end InterpolationLint
