import InterpolationLint.Run
import InterpolationLint.Proofs.Diagnostic.Distinct
import InterpolationLint.Proofs.Suppression.Directive

/-!
# Lines of directives

Directives are found line by line, and diagnostics by offsets in the whole text. Both count lines in
the same way: a line ends at a newline, whatever else stands in it. So a suppression covers what
stands on the same line of the text as its comment, or on the next one.
-/

namespace InterpolationLint

/-! ## Lines with their offsets -/

def placedLines (offset : Nat) : List Char → List (Nat × List Char)
  | [] => []
  | '\n' :: rest => (offset, []) :: placedLines (offset + 1) rest
  | '\r' :: '\n' :: rest => (offset, []) :: placedLines (offset + 2) rest
  | c :: rest =>
    match placedLines (offset + 1) rest with
    | [] => [(offset, [c])]
    | (_, line) :: lines => (offset, c :: line) :: lines

theorem map_snd_placedLines (offset : Nat) (text : List Char) :
    (placedLines offset text).map Prod.snd = splitLines text := by
  fun_induction placedLines offset text with
  | case1 => rfl
  | case2 offset rest ih => simp [splitLines, ih]
  | case3 offset rest ih => simp [splitLines, ih]
  | case4 offset c rest _ _ hnil ih =>
    rw [hnil] at ih
    simp [splitLines, ← ih]
  | case5 offset c rest _ _ start line lines hlines ih =>
    rw [hlines] at ih
    simp [splitLines, ← ih]

theorem placedLines_head {offset start : Nat} {line text : List Char} {lines : List (Nat × List Char)}
    (h : placedLines offset text = (start, line) :: lines) : start = offset := by
  fun_induction placedLines offset text <;> simp_all

/-- A line of a text behind `number` newlines, from offset `start` on. -/
def LineAt (text : List Char) (number start : Nat) (line : List Char) : Prop :=
  ∃ before after, text = before ++ (line ++ after) ∧ before.length = start ∧
    before.count '\n' = number ∧ '\n' ∉ line

theorem LineAt.front {text line after : List Char} (h : text = line ++ after) (hline : '\n' ∉ line) :
    LineAt text 0 0 line :=
  ⟨[], after, h, rfl, rfl, hline⟩

theorem LineAt.behind {text line : List Char} {number start : Nat} (h : LineAt text number start line)
    (skipped : List Char) :
    LineAt (skipped ++ text) (skipped.count '\n' + number) (skipped.length + start) line := by
  obtain ⟨before, after, rfl, rfl, rfl, hline⟩ := h
  refine ⟨skipped ++ before, after, ?_, ?_, ?_, hline⟩ <;> simp

theorem lineAt_of_placedLines {offset i start : Nat} {text line : List Char}
    (h : (placedLines offset text)[i]? = some (start, line)) :
    ∃ n, start = offset + n ∧ LineAt text i n line := by
  fun_induction placedLines offset text generalizing i start line with
  | case1 => simp at h
  | case2 offset rest ih =>
    cases i with
    | zero =>
      obtain ⟨rfl, rfl⟩ : offset = start ∧ [] = line := by simpa using h
      exact ⟨0, rfl, .front rfl (by simp)⟩
    | succ i =>
      obtain ⟨n, rfl, hline⟩ := ih h
      exact ⟨1 + n, by omega, by simpa [Nat.add_comm] using hline.behind ['\n']⟩
  | case3 offset rest ih =>
    cases i with
    | zero =>
      obtain ⟨rfl, rfl⟩ : offset = start ∧ [] = line := by simpa using h
      exact ⟨0, rfl, .front rfl (by simp)⟩
    | succ i =>
      obtain ⟨n, rfl, hline⟩ := ih h
      exact ⟨2 + n, by omega, by simpa [Nat.add_comm] using hline.behind ['\r', '\n']⟩
  | case4 offset c rest hc _ hnil ih =>
    obtain ⟨rfl, rfl, rfl⟩ : i = 0 ∧ offset = start ∧ [c] = line := by
      cases i <;> simp_all
    exact ⟨0, rfl, .front rfl (by simpa [eq_comm] using hc)⟩
  | case5 offset c rest hc _ start' line' lines hlines ih =>
    cases i with
    | zero =>
      -- the line goes on with the first line of the rest, which begins right there
      obtain ⟨rfl, rfl⟩ : offset = start ∧ c :: line' = line := by simpa using h
      have hstart := placedLines_head hlines
      obtain ⟨n, hn, before, after, rfl, hlength, -, hline⟩ := ih (i := 0) (by rw [hlines]; rfl)
      obtain rfl : before = [] := List.eq_nil_of_length_eq_zero (by omega)
      exact ⟨0, rfl, .front rfl (by simpa [eq_comm, hline] using hc)⟩
    | succ i =>
      obtain ⟨n, rfl, hline⟩ := ih (i := i + 1) (by rw [hlines]; exact h)
      have hcount : [c].count '\n' = 0 := by simpa [List.count_eq_zero, eq_comm] using hc
      have hbehind := hline.behind [c]
      rw [hcount, Nat.zero_add] at hbehind
      exact ⟨1 + n, by omega, hbehind⟩

/-! ## Comments with their offsets -/

structure SuppressionSite where
  offset : Nat
  suppression : Suppression

namespace SuppressionSite

def ofDirective? (file : String) (number : Nat) (header : Bool) (start : Nat)
    (d : DirectiveComment) : Option SuppressionSite :=
  (Suppression.ofDirective? file number header d).map (⟨start + d.before.length, ·⟩)

def ofLine? (file : String) (number : Nat) (header : Bool) (start : Nat) (line : List Char) :
    Option SuppressionSite :=
  ((lineDirective? line).bind (ofDirective? file number header start)).or
    ((blockDirective? line).bind (ofDirective? file number header start))

def ofLines (file : String) : Nat → Bool → List (Nat × List Char) → List SuppressionSite
  | _, _, [] => []
  | number, header, (start, line) :: rest =>
    let header := header && isHeaderLine line
    (ofLine? file number header start line).toList ++ ofLines file (number + 1) header rest

def ofChars (file : String) (text : List Char) : List SuppressionSite :=
  ofLines file 1 true (placedLines 0 text)

theorem suppression_ofLine? (file : String) (number : Nat) (header : Bool) (start : Nat)
    (line : List Char) : (ofLine? file number header start line).map suppression =
      Suppression.ofLine? file number header line := by
  have hsame : ∀ d : DirectiveComment, (ofDirective? file number header start d).map suppression =
      Suppression.ofDirective? file number header d := by
    intro d
    simp [ofDirective?, Function.comp_def]
  unfold ofLine? Suppression.ofLine?
  simp only [Option.map_or, Option.map_bind, Function.comp_def, hsame]

theorem suppression_ofLines (file : String) (number : Nat) (header : Bool)
    (lines : List (Nat × List Char)) : (ofLines file number header lines).map suppression =
      Suppression.ofLines file number header (lines.map Prod.snd) := by
  induction lines generalizing number header with
  | nil => rfl
  | cons entry lines ih =>
    obtain ⟨start, line⟩ := entry
    simp only [ofLines, Suppression.ofLines, List.map_cons, List.map_append, ih,
      ← suppression_ofLine? file number _ start, Option.toList_map]

/-- Without their offsets, the sites of a text are its suppressions. -/
theorem suppression_ofChars (file : String) (text : List Char) :
    (ofChars file text).map suppression = Suppression.ofChars file text := by
  rw [ofChars, suppression_ofLines, map_snd_placedLines, Suppression.ofChars]

end SuppressionSite

/-! ## Where a directive is found -/

theorem OpensDirective.beginsComment {cs : List Char} (h : OpensDirective cs) :
    BeginsComment cs := by
  obtain ⟨opening, blanks, rest, rfl | rfl, -, rfl⟩ := h
  · exact .inl (List.prefix_append _ _)
  · exact .inr (List.prefix_append _ _)

/-- What a site says of the text: a directive begins at its offset, and its suppression counts the
newlines before. -/
structure SuppressionSite.In (file : String) (text : List Char) (site : SuppressionSite) : Prop where
  directive : OpensDirective (text.drop site.offset)
  file_eq : site.suppression.file = file
  line_eq : site.suppression.scope ≠ .file →
    site.suppression.line = (text.take site.offset).count '\n' + 1

namespace SuppressionSite

theorem In.comment {file : String} {text : List Char} {site : SuppressionSite}
    (h : site.In file text) : BeginsComment (text.drop site.offset) := h.directive.beginsComment

theorem ofDirective?_eq_some {file : String} {number start : Nat} {header : Bool}
    {d : DirectiveComment} {site : SuppressionSite}
    (h : ofDirective? file number header start d = some site) :
    site.offset = start + d.before.length ∧ site.suppression.file = file ∧
      (site.suppression.scope ≠ .file → site.suppression.line = number) := by
  obtain ⟨suppression, hsome, rfl⟩ := Option.map_eq_some_iff.mp h
  unfold Suppression.ofDirective? at hsome
  split at hsome
  · cases hsome
  · cases hsome
    exact ⟨rfl, rfl, fun hscope => if_neg hscope⟩

theorem in_of_ofLine? {file : String} {text line : List Char} {number start : Nat} {header : Bool}
    {site : SuppressionSite} (hline : LineAt text number start line)
    (h : ofLine? file (number + 1) header start line = some site) : site.In file text := by
  have hfound : ∃ d rest, line = d.before ++ rest ∧ OpensDirective rest ∧
      ofDirective? file (number + 1) header start d = some site := by
    rcases Option.or_eq_some_iff.mp h with h | ⟨-, h⟩
    · obtain ⟨d, hd, hsite⟩ := Option.bind_eq_some_iff.mp h
      obtain ⟨rest, hsplit, hhere⟩ := findDirective?_eq_some hd
      exact ⟨d, rest, hsplit, directiveHere?_opens (.inl rfl) hhere, hsite⟩
    · obtain ⟨d, hd, hsite⟩ := Option.bind_eq_some_iff.mp h
      obtain ⟨rest, hsplit, hhere⟩ := findDirective?_eq_some hd
      exact ⟨d, rest, hsplit, directiveHere?_opens (.inr rfl) hhere, hsite⟩
  obtain ⟨d, rest, rfl, hdirective, hsite⟩ := hfound
  obtain ⟨hoffset, hfile, hnumber⟩ := ofDirective?_eq_some hsite
  obtain ⟨before, after, rfl, rfl, rfl, hnewline⟩ := hline
  have htext : before ++ ((d.before ++ rest) ++ after) = (before ++ d.before) ++ (rest ++ after) := by
    simp
  have hlength : site.offset = (before ++ d.before).length := by
    rw [hoffset, List.length_append]
  have hnone : d.before.count '\n' = 0 := by
    rw [List.count_eq_zero]
    intro hmem
    exact hnewline (List.mem_append_left rest hmem)
  rw [htext]
  constructor
  · rw [hlength, List.drop_left]
    exact hdirective.append after
  · exact hfile
  · intro hscope
    rw [hnumber hscope, hlength, List.take_left, List.count_append, hnone, Nat.add_zero]

theorem in_of_mem_ofLines {file : String} {text : List Char} {header : Bool}
    {lines : List (Nat × List Char)} {number : Nat}
    (hlines : ∀ i start line, lines[i]? = some (start, line) → LineAt text (number + i) start line)
    {site : SuppressionSite} (h : site ∈ ofLines file (number + 1) header lines) :
    site.In file text := by
  induction lines generalizing number header with
  | nil => cases h
  | cons entry lines ih =>
    obtain ⟨start, line⟩ := entry
    rw [ofLines, List.mem_append, Option.mem_toList] at h
    rcases h with h | h
    · exact in_of_ofLine? (hlines 0 start line rfl) h
    · apply ih _ h
      intro i start' line' hi
      rw [Nat.add_assoc, Nat.add_comm 1 i]
      exact hlines (i + 1) start' line' hi

theorem in_of_mem {file : String} {text : List Char} {site : SuppressionSite}
    (h : site ∈ ofChars file text) : site.In file text := by
  refine in_of_mem_ofLines ?_ (h : site ∈ ofLines file (0 + 1) true (placedLines 0 text))
  intro i start line hi
  obtain ⟨n, rfl, hline⟩ := lineAt_of_placedLines hi
  simpa using hline

end SuppressionSite

/-! ## Newlines between offsets -/

def newlinesBetween (text : List Char) (a b : Nat) : Nat := ((text.take b).drop a).count '\n'

theorem count_take_of_le (text : List Char) {a b : Nat} (h : a ≤ b) :
    (text.take b).count '\n' = (text.take a).count '\n' + newlinesBetween text a b := by
  have hsplit := List.take_append_drop a (text.take b)
  rw [List.take_take, Nat.min_eq_left h] at hsplit
  rw [newlinesBetween, ← List.count_append, hsplit]

theorem newlinesBetween_eq_zero_iff (text : List Char) (a b : Nat) :
    newlinesBetween text (min a b) (max a b) = 0 ↔
      (text.take b).count '\n' = (text.take a).count '\n' := by
  rcases Nat.le_total a b with h | h
  · have hcount := count_take_of_le text h
    rw [Nat.min_eq_left h, Nat.max_eq_right h]
    omega
  · have hcount := count_take_of_le text h
    rw [Nat.min_eq_right h, Nat.max_eq_left h]
    omega

theorem newlinesBetween_eq_one_iff (text : List Char) (a b : Nat) :
    a < b ∧ newlinesBetween text a b = 1 ↔
      (text.take b).count '\n' = (text.take a).count '\n' + 1 := by
  rcases Nat.lt_or_ge a b with h | h
  · have hcount := count_take_of_le text (Nat.le_of_lt h)
    omega
  · have hcount := count_take_of_le text h
    omega

/-! ## Coverage -/

/-- What a directive covers, of violations that begin at `offset`: with the scope of its own line,
what no newline divides from its comment, and with that of the next line, what stands behind its
comment and exactly one newline. -/
def SuppressionSite.CoversByLine (text : List Char) (site : SuppressionSite) (v : Violation)
    (offset : Nat) : Prop :=
  (site.suppression.scope = .line → (site.suppression.covers v = true ↔
    newlinesBetween text (min site.offset offset) (max site.offset offset) = 0)) ∧
  (site.suppression.scope = .nextLine → (site.suppression.covers v = true ↔
    site.offset < offset ∧ newlinesBetween text site.offset offset = 1))

theorem Rule.ofName?_name (rule : Rule) : Rule.ofName? rule.name = some rule := by
  cases rule <;> decide

theorem Suppression.covers_iff {s : Suppression} {d : Diagnostic}
    (hrule : s.rule = "*" ∨ s.rule = d.rule.name) :
    s.covers (.ofDiagnostic s.file d) = true ↔ s.coversLine d.location.start.line = true := by
  have hcovers : s.coversRule d.rule = true := by
    rcases hrule with hrule | hrule <;> simp [coversRule, hrule, Rule.ofName?_name]
  simp [covers, Violation.ofDiagnostic, Violation.line, hcovers]

theorem SuppressionSite.In.coversByLine {file : String} {text : List Char} {site : SuppressionSite}
    {d : Diagnostic} {offset : Nat} (hsite : site.In file text)
    (hrule : site.suppression.rule = "*" ∨ site.suppression.rule = d.rule.name)
    (hline : d.location.start.line = (text.take offset).count '\n' + 1) :
    site.CoversByLine text (.ofDiagnostic file d) offset := by
  have hcovers : site.suppression.covers (.ofDiagnostic file d) = true ↔
      site.suppression.coversLine d.location.start.line = true := by
    rw [← hsite.file_eq]
    exact Suppression.covers_iff hrule
  constructor
  · intro hscope
    have hown := hsite.line_eq (by rw [hscope]; nofun)
    rw [hcovers, newlinesBetween_eq_zero_iff]
    simp [Suppression.coversLine, hscope, hown, hline]
  · intro hscope
    have hown := hsite.line_eq (by rw [hscope]; nofun)
    rw [hcovers, newlinesBetween_eq_one_iff]
    simp [Suppression.coversLine, hscope, hown, hline]

theorem LineIndex.line_of_position {text : List Char} {offset : Nat} {p : Position}
    (h : (ofChars text).position offset = .ok p) : p.line = (text.take offset).count '\n' + 1 := by
  by_cases hle : offset ≤ (ofChars text).length
  · rw [position_eq_place hle] at h
    cases h
    exact line_place hle
  · rw [position, if_pos (Nat.lt_of_not_le hle)] at h
    cases h

theorem SourceTree.exists_finding {text : List Char} {tree : SourceTree}
    (h : SourceTree.ofChars text = .ok tree) {rules : RuleSet} {diagnostics : List Diagnostic}
    (hanalyze : tree.analyze rules = .ok diagnostics) : ∀ d ∈ diagnostics,
      ∃ finding ∈ tree.findings rules, Diagnostic.ofFinding tree.lines finding = .ok d ∧
        tree.lines.position finding.range.start = .ok d.location.start := by
  intro d hd
  have hperm := (Diagnostic.arranged_of_distinct (SourceTree.located_distinct h rules)).1
  rw [SourceTree.analyze_eq h rules] at hanalyze
  cases hanalyze
  obtain ⟨finding, hfinding, rfl⟩ := List.mem_map.mp (hperm.mem_iff.mp hd)
  obtain ⟨hordered, hinside⟩ := SourceTree.findings_inside h rules finding hfinding
  rw [← SourceTree.lines_length h] at hinside
  exact ⟨finding, hfinding, Diagnostic.ofFinding_eq hordered hinside,
    LineIndex.position_eq_place (Nat.le_trans hordered hinside)⟩

/-- The line that a directive covers is a line of the text, counted by its newlines alone. The
suppressions of a text come from comments at known offsets, and a diagnostic of the rule of one of
them is covered as the newlines between the two say. -/
theorem SourceTree.covers_iff_newlines {source : String} {tree : SourceTree}
    (h : SourceTree.ofSource source = .ok tree) (rules : RuleSet) (file : String) :
    (SuppressionSite.ofChars file source.toList).map (·.suppression) =
      Suppression.ofSource file source ∧
    (∀ site ∈ SuppressionSite.ofChars file source.toList,
      BeginsComment (source.toList.drop site.offset)) ∧
    ∃ diagnostics, tree.analyze rules = .ok diagnostics ∧ ∀ d ∈ diagnostics,
      (∃ finding ∈ tree.findings rules, Diagnostic.ofFinding tree.lines finding = .ok d ∧
        tree.lines.position finding.range.start = .ok d.location.start) ∧
      ∀ offset, tree.lines.position offset = .ok d.location.start →
        ∀ site ∈ SuppressionSite.ofChars file source.toList,
          (site.suppression.rule = "*" ∨ site.suppression.rule = d.rule.name) →
          site.CoversByLine source.toList (.ofDiagnostic file d) offset := by
  have hanalyze := SourceTree.analyze_eq h rules
  refine ⟨SuppressionSite.suppression_ofChars file _, ?_, _, hanalyze, ?_⟩
  · intro site hsite
    exact (SuppressionSite.in_of_mem hsite).comment
  intro d hd
  refine ⟨SourceTree.exists_finding h hanalyze d hd, ?_⟩
  intro offset hoffset site hmem hrule
  rw [(SourceTree.ofChars_eq_ok_iff.mp h).2] at hoffset
  exact (SuppressionSite.in_of_mem hmem).coversByLine hrule (LineIndex.line_of_position hoffset)

/-- Behind a byte order mark, a directive in its own line and one for the line after the next
carriage return and newline, where a lone carriage return ends no line. -/
theorem SourceTree.covers_across_line_ends : ∃ source tree diagnostics,
    source = "\ufeff$\"\" // interpcheck:ignore *\r\n/* interpcheck:ignore-next-line * */\r\n\r$\"\"" ∧
    SourceTree.ofSource source = .ok tree ∧ tree.analyze .all = .ok diagnostics ∧
    diagnostics.length = 2 ∧
    (SuppressionSite.ofChars "a.cs" source.toList).map
      (fun site => (site.offset, site.suppression.scope)) = [(5, .line), (30, .nextLine)] ∧
    ∀ d ∈ diagnostics, ∀ offset, tree.lines.position offset = .ok d.location.start →
      ∀ site ∈ SuppressionSite.ofChars "a.cs" source.toList,
        (site.suppression.rule = "*" ∨ site.suppression.rule = d.rule.name) →
        site.CoversByLine source.toList (.ofDiagnostic "a.cs" d) offset := by
  have hscan : (SourceTree.ofSource
      "\ufeff$\"\" // interpcheck:ignore *\r\n/* interpcheck:ignore-next-line * */\r\n\r$\"\"").toOption.map
        (fun tree => (tree.findings .all).length) = some 2 := by
    decide +kernel
  obtain ⟨tree, htree, hlength⟩ := exists_ok_of_map hscan
  obtain ⟨-, -, diagnostics, hanalyze, hcovers⟩ := SourceTree.covers_iff_newlines htree .all "a.cs"
  refine ⟨_, tree, diagnostics, rfl, htree, hanalyze, ?_, by decide +kernel, ?_⟩
  · obtain rfl := Except.ok.inj (hanalyze.symm.trans (SourceTree.analyze_eq htree .all))
    have hperm := (Diagnostic.arranged_of_distinct (SourceTree.located_distinct htree .all)).1
    rw [hperm.length_eq, List.length_map]
    exact hlength
  · intro d hd
    exact (hcovers d hd).2

end InterpolationLint
