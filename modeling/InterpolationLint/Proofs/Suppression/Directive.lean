import InterpolationLint.Proofs.Text.Lines
import InterpolationLint.Suppression.Basic

/-!
# From directives to suppressions

What a directive on a line asks for, and how directives are searched for: place by place, each place
by itself. Every directive has the marker in it, so lines without the marker suppress nothing.
-/

namespace InterpolationLint

/-! ## What a directive asks for -/

def DirectiveComment.suppression (d : DirectiveComment) (file : String) (number : Nat) :
    Suppression where
  rule := String.ofList d.rule
  reason := String.ofList d.reason
  file := file
  line := if d.keyword = .ignoreFile then 0 else number
  scope :=
    match d.keyword with
    | .ignoreFile => .file
    | .ignoreNextLine => .nextLine
    | .ignore => if d.before.all isBlank then .nextLine else .line

/-- A directive for a whole file counts in the header and on the first lines only. -/
def DirectiveComment.Honoured (d : DirectiveComment) (number : Nat) (header : Bool) : Prop :=
  d.keyword = .ignoreFile → header = true ∨ number ≤ lastFileDirectiveLine

def directive? (line : List Char) : Option DirectiveComment :=
  (lineDirective? line).or (blockDirective? line)

namespace Suppression

theorem ofDirective?_eq_some_iff {d : DirectiveComment} {file : String} {number : Nat}
    {header : Bool} {s : Suppression} : ofDirective? file number header d = some s ↔
      d.Honoured number header ∧ s = d.suppression file number := by
  have hscope : (⟨String.ofList d.rule, String.ofList d.reason, file,
      if d.scope = .file then 0 else number, d.scope⟩ : Suppression) =
        d.suppression file number := by
    unfold DirectiveComment.suppression DirectiveComment.scope
    cases d.keyword with
    | ignore => by_cases hbefore : d.before.all isBlank <;> simp [isEmpty_trim, hbefore]
    | ignoreNextLine => rfl
    | ignoreFile => rfl
  have hhonoured : d.Honoured number header ↔
      ¬(d.keyword = .ignoreFile ∧ !header ∧ lastFileDirectiveLine < number) := by
    unfold DirectiveComment.Honoured
    cases header <;> simp
  rw [ofDirective?, hscope, hhonoured]
  by_cases hlate : d.keyword = .ignoreFile ∧ !header ∧ lastFileDirectiveLine < number
  · rw [if_pos hlate]
    constructor
    · nofun
    · intro h
      exact absurd hlate h.1
  · rw [if_neg hlate, Option.some.injEq, eq_comm]
    exact (and_iff_right hlate).symm

/-- A directive for a whole file is honoured on the first lines, and any other one everywhere. -/
theorem ofDirective?_eq {d : DirectiveComment} {number : Nat}
    (h : d.keyword = .ignoreFile → number ≤ lastFileDirectiveLine) (file : String) (header : Bool) :
    ofDirective? file number header d = some (d.suppression file number) :=
  ofDirective?_eq_some_iff.mpr ⟨fun hkeyword => .inr (h hkeyword), rfl⟩

theorem ofLine?_of_directive {line : List Char} {d : DirectiveComment}
    (hd : directive? line = some d) {number : Nat}
    (h : d.keyword = .ignoreFile → number ≤ lastFileDirectiveLine) (file : String) (header : Bool) :
    ofLine? file number header line = some (d.suppression file number) := by
  unfold ofLine?
  rcases Option.or_eq_some_iff.mp hd with hline | ⟨hline, hblock⟩
  · simp [hline, ofDirective?_eq h]
  · simp [hline, hblock, ofDirective?_eq h]

theorem ofLine?_of_none {line : List Char} (h : directive? line = none) (file : String)
    (number : Nat) (header : Bool) : ofLine? file number header line = none := by
  obtain ⟨hline, hblock⟩ := Option.or_eq_none_iff.mp h
  simp [ofLine?, hline, hblock]

theorem ofLines_append (file : String) (number : Nat) (header : Bool) (xs ys : List (List Char)) :
    ofLines file number header (xs ++ ys) = ofLines file number header xs ++
      ofLines file (number + xs.length) (header && xs.all isHeaderLine) ys := by
  induction xs generalizing number header with
  | nil => simp [ofLines]
  | cons line xs ih =>
    simp only [List.cons_append, ofLines, ih, List.append_assoc, List.length_cons, List.all_cons,
      Bool.and_assoc, Nat.add_assoc, Nat.add_comm 1]

theorem ofLines_of_none {lines : List (List Char)} (h : ∀ line ∈ lines, directive? line = none)
    (file : String) (number : Nat) (header : Bool) : ofLines file number header lines = [] := by
  induction lines generalizing number header with
  | nil => rfl
  | cons line lines ih =>
    rw [ofLines, ofLine?_of_none (h line List.mem_cons_self),
      ih fun l hl => h l (List.mem_cons_of_mem line hl)]
    rfl

end Suppression

/-! ## Searching -/

def marker : List Char := "interpcheck:".toList

def OpensDirective (cs : List Char) : Prop :=
  ∃ opening blanks rest, (opening = ['/', '/'] ∨ opening = ['/', '*']) ∧
    (∀ c ∈ blanks, isBlank c = true) ∧ cs = opening ++ (blanks ++ (marker ++ rest))

theorem OpensDirective.append {cs : List Char} (h : OpensDirective cs) (more : List Char) :
    OpensDirective (cs ++ more) := by
  obtain ⟨opening, blanks, rest, hopening, hblanks, rfl⟩ := h
  exact ⟨opening, blanks, rest ++ more, hopening, hblanks, by simp⟩

theorem afterFront?_append (front : String) (cs : List Char) :
    afterFront? front (front.toList ++ cs) = some cs := by
  simp [afterFront?]

theorem afterFront?_eq_some_iff {front : String} {cs rest : List Char} :
    afterFront? front cs = some rest ↔ cs = front.toList ++ rest := by
  constructor
  · intro h
    unfold afterFront? at h
    split at h
    · obtain ⟨rest', rfl⟩ := List.isPrefixOf_iff_prefix.mp ‹_›
      rw [List.drop_left] at h
      rw [Option.some.inj h]
    · cases h
  · rintro rfl
    exact afterFront?_append front rest

theorem directiveHead?_marker {cs : List Char} {found : Keyword × List Char}
    (h : directiveHead? cs = some found) : marker <+: trimStart cs := by
  obtain ⟨rest, hrest, -⟩ := Option.bind_eq_some_iff.mp h
  exact ⟨rest, (afterFront?_eq_some_iff.mp hrest).symm⟩

section
variable {opening : String} {fields? : List Char → Option (List Char × List Char)}

/-- Between the opening of a comment and the marker of its directive there are blanks only. -/
theorem directiveHere?_marker {cs : List Char} {d : DirectiveComment}
    (h : directiveHere? opening fields? cs = some d) :
    ∃ rest, cs = opening.toList ++ rest ∧ marker <+: trimStart rest := by
  obtain ⟨rest, hrest, h⟩ := Option.bind_eq_some_iff.mp h
  obtain ⟨head, hhead, -⟩ := Option.bind_eq_some_iff.mp h
  exact ⟨rest, afterFront?_eq_some_iff.mp hrest, directiveHead?_marker hhead⟩

theorem directiveHere?_opens {cs : List Char} {d : DirectiveComment}
    (hopening : opening.toList = ['/', '/'] ∨ opening.toList = ['/', '*'])
    (h : directiveHere? opening fields? cs = some d) : OpensDirective cs := by
  obtain ⟨behind, rfl, rest, hrest⟩ := directiveHere?_marker h
  refine ⟨_, behind.takeWhile isBlank, rest, hopening, fun c hc => List.mem_takeWhile_imp hc, ?_⟩
  rw [hrest]
  unfold trimStart
  rw [List.takeWhile_append_dropWhile]

theorem directiveHere?_eq_none {cs : List Char} (h : ¬marker <:+: cs) :
    directiveHere? opening fields? cs = none := by
  rw [Option.eq_none_iff_forall_ne_some]
  intro d hd
  obtain ⟨rest, rfl, hmarker⟩ := directiveHere?_marker hd
  have hrest : marker <:+: rest := hmarker.isInfix.trans (List.dropWhile_suffix isBlank).isInfix
  exact h (hrest.trans (List.suffix_append _ rest).isInfix)

/-- A directive is found at a place where it can be read. -/
theorem findDirective?_eq_some {line : List Char} {d : DirectiveComment}
    (h : findDirective? opening fields? line = some d) :
    ∃ rest, line = d.before ++ rest ∧
      directiveHere? opening fields? rest = some { d with before := [] } := by
  induction line generalizing d with
  | nil => cases h
  | cons c line ih =>
    rw [findDirective?] at h
    cases hhere : directiveHere? opening fields? (c :: line) with
    | some found =>
      rw [hhere] at h
      cases h
      obtain ⟨_, -, hhead⟩ := Option.bind_eq_some_iff.mp hhere
      obtain ⟨_, -, hfields⟩ := Option.bind_eq_some_iff.mp hhead
      obtain ⟨_, -, hd⟩ := Option.bind_eq_some_iff.mp hfields
      cases hd
      exact ⟨c :: line, rfl, hhere⟩
    | none =>
      rw [hhere] at h
      obtain ⟨d', hd', rfl⟩ := Option.map_eq_some_iff.mp h
      obtain ⟨rest, rfl, hrest⟩ := ih hd'
      exact ⟨rest, rfl, hrest⟩

/-- What has no directive at any of its places only moves the directive behind it. -/
theorem findDirective?_append {before rest : List Char}
    (h : ∀ u, u ≠ [] → u <:+ before → directiveHere? opening fields? (u ++ rest) = none) :
    findDirective? opening fields? (before ++ rest) =
      (findDirective? opening fields? rest).map fun d =>
        { d with before := before ++ d.before } := by
  induction before with
  | nil => simp
  | cons c before ih =>
    have hhere := h (c :: before) (by simp) (List.suffix_refl _)
    have hrest := ih fun u hu hsuffix => h u hu (hsuffix.trans (List.suffix_cons c before))
    rw [List.cons_append] at hhere ⊢
    rw [findDirective?, hhere, hrest]
    simp [Function.comp_def]

theorem findDirective?_eq_none {line : List Char} (h : ¬marker <:+: line) :
    findDirective? opening fields? line = none := by
  induction line with
  | nil => rfl
  | cons c line ih =>
    have hrest := ih fun hmarker => h (hmarker.trans (List.suffix_cons c line).isInfix)
    rw [findDirective?, directiveHere?_eq_none h, hrest]
    rfl

end

theorem directive?_eq_none {line : List Char} (h : ¬marker <:+: line) : directive? line = none := by
  rw [directive?, lineDirective?, blockDirective?, findDirective?_eq_none h,
    findDirective?_eq_none h]
  rfl

end InterpolationLint
