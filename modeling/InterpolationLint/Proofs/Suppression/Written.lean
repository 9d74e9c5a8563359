import InterpolationLint.Proofs.Diagnostic.Order
import InterpolationLint.Proofs.Suppression.Directive
import InterpolationLint.Proofs.Suppression.Site

/-!
# Written directives

A directive that is written out as a comment, behind other text on its line and between lines
without directives, is found again with the same rule and reason. In a block comment the rule may
have no hyphen, for the shortest rule counts there, and neither rule nor reason may end the comment.
-/

namespace InterpolationLint

/-! ## Fields -/

def reasonText (reason : List Char) : List Char :=
  if reason = [] then [] else ' ' :: '-' :: ' ' :: reason

section
variable {rule reason : List Char} (hrule : rule ≠ []) (hdense : ∀ c ∈ rule, isBlank c = false)
  (hreason : trim reason = reason)
include hrule hdense hreason

theorem lineFields?_written : lineFields? (rule ++ reasonText reason) = some (rule, reason) := by
  have hrest : (reasonText reason).takeWhile (!isBlank ·) = [] ∧
      (reasonText reason).dropWhile (!isBlank ·) = reasonText reason := by
    unfold reasonText
    split <;> simp [isBlank, blankRanges]
  have htake : (rule ++ reasonText reason).takeWhile (!isBlank ·) = rule := by
    rw [List.takeWhile_append_of_pos (by simpa using hdense), hrest.1, List.append_nil]
  have hdrop : (rule ++ reasonText reason).dropWhile (!isBlank ·) = reasonText reason := by
    rw [List.dropWhile_append_of_pos (by simpa using hdense), hrest.2]
  unfold lineFields?
  rw [htake, hdrop]
  cases rule with
  | nil => exact absurd rfl hrule
  | cons c rule =>
    by_cases hempty : reason = []
    · simp [reasonText, trimStart, hempty]
    · have hblank : isBlank ' ' = true ∧ isBlank '-' = false := by decide
      simp [reasonText, hempty, trimStart_cons_of_blank hblank.1,
        trimStart_cons_of_not_blank hblank.2, trim_cons_of_blank hblank.1, hreason]

end

def commentEnd : List Char := ['*', '/']

theorem head?_ne_slash {cs rest : List Char} (h : ¬commentEnd <:+: '*' :: cs)
    (hrest : rest.head? ≠ some '/') : (cs ++ rest).head? ≠ some '/' := by
  cases cs with
  | nil => exact hrest
  | cons c cs =>
    intro hc
    obtain rfl : c = '/' := by simpa using hc
    exact h ⟨[], cs, rfl⟩

theorem beforeClose?_append {cs : List Char} (h : ¬commentEnd <:+: cs) (rest : List Char) :
    beforeClose? (cs ++ '*' :: '/' :: rest) = some cs := by
  induction cs with
  | nil => rfl
  | cons c cs ih =>
    have hrest := ih fun hwithin => h (hwithin.trans (List.suffix_cons c cs).isInfix)
    rw [List.cons_append, beforeClose?, hrest]
    · rfl
    · rintro tail rfl htail
      have hstar : ('*' :: '/' :: rest).head? ≠ some '/' := nofun
      exact head?_ne_slash h hstar (by rw [htail]; rfl)

/-- A block comment does not end within its rule. -/
theorem blockEnd?_eq_none {cs rest : List Char} (hne : cs ≠ [])
    (hdense : ∀ c ∈ cs, isBlank c = false) (hhyphen : '-' ∉ cs) (hend : ¬commentEnd <:+: cs)
    (hrest : rest.head? ≠ some '/') :
    blockEnd? (cs ++ rest) = none := by
  unfold blockEnd?
  rw [trimStart_append_of_dense hne hdense]
  cases cs with
  | nil => exact absurd rfl hne
  | cons c cs =>
    rw [List.cons_append]
    split
    · rename_i heq
      obtain ⟨rfl, -⟩ := List.cons.inj heq
      simp at hhyphen
    · rename_i heq
      obtain ⟨rfl, htail⟩ := List.cons.inj heq
      exact absurd (by rw [htail]; rfl) (head?_ne_slash hend hrest)
    · rfl

theorem blockFields?_append {rule reason rest : List Char} (hne : rule ≠ [])
    (hdense : ∀ c ∈ rule, isBlank c = false) (hhyphen : '-' ∉ rule)
    (hend : ¬commentEnd <:+: rule) (hrest : rest.head? ≠ some '/')
    (hreason : blockEnd? rest = some reason) :
    blockFields? (rule ++ rest) = some (rule, reason) := by
  induction rule with
  | nil => exact absurd rfl hne
  | cons c rule ih =>
    have hc := hdense c List.mem_cons_self
    rw [List.cons_append, blockFields?]
    simp only [hc, Bool.false_eq_true, if_false]
    by_cases hrule : rule = []
    · simp [hrule, hreason]
    · have hdense' : ∀ b ∈ rule, isBlank b = false := fun b hb =>
        hdense b (List.mem_cons_of_mem c hb)
      have hhyphen' : '-' ∉ rule := fun h => hhyphen (List.mem_cons_of_mem c h)
      have hend' : ¬commentEnd <:+: rule := fun h =>
        hend (h.trans (List.suffix_cons c rule).isInfix)
      rw [blockEnd?_eq_none hrule hdense' hhyphen' hend' hrest, ih hrule hdense' hhyphen' hend']
      rfl

theorem blockEnd?_written {reason : List Char} (hreason : trim reason = reason)
    (hend : ¬commentEnd <:+: reason) :
    blockEnd? (reasonText reason ++ ' ' :: commentEnd) = some reason := by
  have hblank : isBlank ' ' = true ∧ isBlank '-' = false := by decide
  by_cases hempty : reason = []
  · rw [hempty]
    decide
  · have hspaced : ¬commentEnd <:+: ' ' :: (reason ++ [' ']) := by
      intro h
      rcases infix_of_append_cons (by decide) [] h with h | h
      · exact absurd h (by decide)
      · rcases infix_of_append_cons (by decide) reason h with h | h
        · exact hend h
        · exact absurd h (by decide)
    have htext : ' ' :: '-' :: ' ' :: reason ++ ' ' :: commentEnd =
        ' ' :: '-' :: (' ' :: (reason ++ [' ']) ++ '*' :: '/' :: []) := by
      simp [commentEnd]
    rw [reasonText, if_neg hempty, htext, blockEnd?, trimStart_cons_of_blank hblank.1,
      trimStart_cons_of_not_blank hblank.2]
    change (beforeClose? (' ' :: (reason ++ [' ']) ++ '*' :: '/' :: [])).map trim = some reason
    rw [beforeClose?_append hspaced, Option.map_some, trim_cons_of_blank hblank.1,
      trim_concat_of_blank hblank.1, hreason]

/-! ## Comments -/

def Keyword.text : Keyword → List Char
  | .ignore => "ignore".toList
  | .ignoreNextLine => "ignore-next-line".toList
  | .ignoreFile => "ignore-file".toList

theorem Keyword.colon_not_mem_text (keyword : Keyword) : ':' ∉ keyword.text := by
  cases keyword <;> decide

theorem Keyword.read?_text (keyword : Keyword) (rest : List Char) :
    Keyword.read? (keyword.text ++ ' ' :: rest) = some (keyword, ' ' :: rest) := by
  unfold Keyword.read?
  cases keyword with
  | ignore =>
    have htext : text .ignore = "ignore".toList := rfl
    have hfile : afterFront? "-file" (' ' :: rest) = none := by simp [afterFront?]
    have hnext : afterFront? "-next-line" (' ' :: rest) = none := by simp [afterFront?]
    rw [htext, afterFront?_append, Option.bind_eq_bind, Option.bind_some, hfile, hnext]
    rfl
  | ignoreNextLine =>
    have htext : text .ignoreNextLine = "ignore".toList ++ "-next-line".toList := by decide
    have hfile : afterFront? "-file" ("-next-line".toList ++ ' ' :: rest) = none := by
      simp [afterFront?]
    rw [htext, List.append_assoc, afterFront?_append, Option.bind_eq_bind, Option.bind_some,
      hfile, afterFront?_append]
    rfl
  | ignoreFile =>
    have htext : text .ignoreFile = "ignore".toList ++ "-file".toList := by decide
    rw [htext, List.append_assoc, afterFront?_append, Option.bind_eq_bind, Option.bind_some,
      afterFront?_append]
    rfl

namespace DirectiveComment

def body (d : DirectiveComment) : List Char :=
  marker ++ (d.keyword.text ++ ' ' :: (d.rule ++ reasonText d.reason))

def asLine (d : DirectiveComment) : List Char := d.before ++ '/' :: '/' :: ' ' :: d.body

def asBlock (d : DirectiveComment) : List Char :=
  d.before ++ '/' :: '*' :: ' ' :: (d.body ++ ' ' :: commentEnd)

/-- What can be written as a line comment and read back: a rule of one word, a reason without blanks
at its ends, and no marker but that of the directive. -/
structure Writable (d : DirectiveComment) : Prop where
  rule_ne_nil : d.rule ≠ []
  rule_dense : ∀ c ∈ d.rule, isBlank c = false
  reason_trim : trim d.reason = d.reason
  reason_line : '\n' ∉ d.reason
  before_line : '\n' ∉ d.before
  before_unmarked : ¬marker <:+: d.before
  rule_unmarked : ¬marker <:+: d.rule
  reason_unmarked : ¬marker <:+: d.reason

end DirectiveComment

theorem directiveHead?_written {keyword : Keyword} {rest : List Char}
    (h : trimStart rest = rest) :
    directiveHead? (' ' :: (marker ++ (keyword.text ++ ' ' :: rest))) = some (keyword, rest) := by
  have hblank : isBlank ' ' = true := by decide
  have hmarker : trimStart (' ' :: (marker ++ (keyword.text ++ ' ' :: rest))) =
      "interpcheck:".toList ++ (keyword.text ++ ' ' :: rest) := by
    rw [trimStart_cons_of_blank hblank]
    exact trimStart_cons_of_not_blank (by decide) _
  unfold directiveHead?
  rw [hmarker, afterFront?_append]
  simp [Keyword.read?_text, hblank, trimStart_cons_of_blank, h]

theorem directiveHere?_written (opening : String) (keyword : Keyword)
    {fields? : List Char → Option (List Char × List Char)} {rest rule reason : List Char}
    (h : trimStart rest = rest) (hfields : fields? rest = some (rule, reason)) :
    directiveHere? opening fields?
      (opening.toList ++ ' ' :: (marker ++ (keyword.text ++ ' ' :: rest))) =
        some ⟨[], keyword, rule, reason⟩ := by
  unfold directiveHere?
  rw [afterFront?_append]
  simp [directiveHead?_written h, hfields]

section
variable {opening : String} {fields? : List Char → Option (List Char × List Char)}

/-- No directive begins before a comment and has its marker behind the opening of the comment. -/
theorem directiveHere?_before {a b c e : Char} {u rest : List Char}
    (hopening : opening.toList = [a, b]) (hc : isBlank c = false ∧ c ∉ marker)
    (he : isBlank e = false ∧ e ∉ marker) (hne : u ≠ []) (h : ¬marker <:+: u) :
    directiveHere? opening fields? (u ++ c :: e :: rest) = none := by
  rw [Option.eq_none_iff_forall_ne_some]
  intro d hd
  obtain ⟨behind, heq, hmarker⟩ := directiveHere?_marker hd
  rw [hopening] at heq
  -- with one character before the comment its second character follows the two of the opening,
  -- and with more of them its first one still stands between the opening and the marker
  match u, hne with
  | [x], _ =>
    obtain rfl : e :: rest = behind := by simpa using congrArg (List.drop 2) heq
    rw [trimStart_cons_of_not_blank he.1] at hmarker
    exact absurd (prefix_of_append_cons he.2 [] hmarker) (by decide)
  | x :: y :: u, _ =>
    obtain rfl : u ++ c :: e :: rest = behind := by simpa using congrArg (List.drop 2) heq
    rw [trimStart, dropWhile_append_cons hc.1] at hmarker
    have hahead := prefix_of_append_cons hc.2 _ hmarker
    have hwithin : marker <:+: u := hahead.isInfix.trans (List.dropWhile_suffix isBlank).isInfix
    exact h (hwithin.trans ⟨[x, y], [], by simp⟩)

/-- So the first directive behind other text is the first one from the comment on. -/
theorem findDirective?_behind {a b c e : Char} {before rest : List Char}
    (hopening : opening.toList = [a, b]) (hc : isBlank c = false ∧ c ∉ marker)
    (he : isBlank e = false ∧ e ∉ marker) (hbefore : ¬marker <:+: before) :
    findDirective? opening fields? (before ++ c :: e :: rest) =
      (findDirective? opening fields? (c :: e :: rest)).map fun d =>
        { d with before := before ++ d.before } := by
  apply findDirective?_append
  intro u hne hsuffix
  apply directiveHere?_before hopening hc he hne
  intro hmarker
  exact hbefore (hmarker.trans hsuffix.isInfix)

theorem findDirective?_written {a b : Char} (hopening : opening.toList = [a, b])
    (ha : isBlank a = false ∧ a ∉ marker) (hb : isBlank b = false ∧ b ∉ marker)
    {before rest rule reason : List Char} {keyword : Keyword} (hbefore : ¬marker <:+: before)
    (hrest : trimStart rest = rest) (hfields : fields? rest = some (rule, reason)) :
    findDirective? opening fields?
      (before ++ a :: b :: ' ' :: (marker ++ (keyword.text ++ ' ' :: rest))) =
        some ⟨before, keyword, rule, reason⟩ := by
  have hhere : directiveHere? opening fields?
      (a :: b :: ' ' :: (marker ++ (keyword.text ++ ' ' :: rest))) =
        some ⟨[], keyword, rule, reason⟩ := by
    have hwritten := directiveHere?_written opening keyword hrest hfields
    rwa [hopening] at hwritten
  rw [findDirective?_behind hopening ha hb hbefore, findDirective?, hhere]
  simp

end

theorem unmarked_append {xs ys : List Char} (hxs : ¬marker <:+: xs) (hys : ¬marker <:+: ys) :
    ¬marker <:+: xs ++ ' ' :: ys := by
  intro h
  exact (infix_of_append_cons (by decide) xs h).elim hxs hys

theorem lineDirective?_cons_eq_none {c : Char} {rest : List Char} (hc : ¬['/', '/'] <+: c :: rest)
    (hrest : lineDirective? rest = none) : lineDirective? (c :: rest) = none := by
  have hhere : directiveHere? "//" lineFields? (c :: rest) = none := by
    rw [Option.eq_none_iff_forall_ne_some]
    intro d hd
    obtain ⟨behind, heq, -⟩ := directiveHere?_marker hd
    exact hc ⟨behind, heq.symm⟩
  unfold lineDirective? at hrest ⊢
  rw [findDirective?, hhere, hrest]
  rfl

theorem lineDirective?_append_eq_none {front rest : List Char} (hfront : '/' ∉ front)
    (hrest : lineDirective? rest = none) : lineDirective? (front ++ rest) = none := by
  induction front with
  | nil => exact hrest
  | cons c front ih =>
    apply lineDirective?_cons_eq_none
    · rintro ⟨behind, heq⟩
      obtain ⟨rfl, -⟩ := List.cons.inj heq
      simp at hfront
    · exact ih fun hmem => hfront (List.mem_cons_of_mem c hmem)

theorem DirectiveComment.asBlock_eq (d : DirectiveComment) : d.asBlock =
    d.before ++ '/' :: '*' :: ' ' :: (marker ++ (d.keyword.text ++
      ' ' :: (d.rule ++ (reasonText d.reason ++ ' ' :: commentEnd)))) := by
  simp [asBlock, body]

namespace DirectiveComment.Writable

variable {d : DirectiveComment} (h : d.Writable)
include h

theorem lineDirective?_asLine : lineDirective? d.asLine = some d := by
  have hfields := lineFields?_written h.rule_ne_nil h.rule_dense h.reason_trim
  have hrest := trimStart_append_of_dense h.rule_ne_nil h.rule_dense (reasonText d.reason)
  exact findDirective?_written rfl (by decide) (by decide) h.before_unmarked hrest hfields

theorem blockDirective?_asBlock (hhyphen : '-' ∉ d.rule) (hrule : ¬commentEnd <:+: d.rule)
    (hreason : ¬commentEnd <:+: d.reason) : blockDirective? d.asBlock = some d := by
  have hhead : (reasonText d.reason ++ ' ' :: commentEnd).head? ≠ some '/' := by
    unfold reasonText
    split <;> simp
  have hfields := blockFields?_append h.rule_ne_nil h.rule_dense hhyphen hrule hhead
    (blockEnd?_written h.reason_trim hreason)
  have hrest := trimStart_append_of_dense h.rule_ne_nil h.rule_dense
    (reasonText d.reason ++ ' ' :: commentEnd)
  rw [asBlock_eq]
  have hopening : "/*".toList = ['/', '*'] := rfl
  exact findDirective?_written hopening (by decide) (by decide) h.before_unmarked hrest hfields

/-- Behind the marker of a block comment there is no other. -/
theorem tail_unmarked : ¬marker <:+: d.keyword.text ++
    ' ' :: (d.rule ++ (reasonText d.reason ++ ' ' :: commentEnd)) := by
  have hkeyword : ¬marker <:+: d.keyword.text := fun hmarker =>
    d.keyword.colon_not_mem_text (hmarker.subset (by decide))
  have hend : ¬marker <:+: commentEnd := by decide
  apply unmarked_append hkeyword
  unfold reasonText
  split
  · exact unmarked_append h.rule_unmarked hend
  · apply unmarked_append h.rule_unmarked
    have hhyphen : ¬marker <:+: ['-'] := by decide
    have hreason := unmarked_append h.reason_unmarked hend
    simpa using unmarked_append hhyphen hreason

theorem lineDirective?_asBlock : lineDirective? d.asBlock = none := by
  have hcomment : lineDirective? ('/' :: '*' :: ' ' :: (marker ++ (d.keyword.text ++
      ' ' :: (d.rule ++ (reasonText d.reason ++ ' ' :: commentEnd))))) = none := by
    apply lineDirective?_cons_eq_none
    · rintro ⟨behind, heq⟩
      simp at heq
    · have hfront : '/' ∉ '*' :: ' ' :: marker := by decide
      exact lineDirective?_append_eq_none hfront (findDirective?_eq_none h.tail_unmarked)
  have hopening : "//".toList = ['/', '/'] := rfl
  rw [asBlock_eq, lineDirective?,
    findDirective?_behind hopening (by decide) (by decide) h.before_unmarked, ← lineDirective?,
    hcomment]
  rfl

theorem newline_not_mem_body : '\n' ∉ d.body := by
  have hkeyword : '\n' ∉ d.keyword.text := by cases d.keyword <;> decide
  have hmarker : '\n' ∉ marker := by decide
  have hrule : '\n' ∉ d.rule := fun hmem => absurd (h.rule_dense '\n' hmem) (by decide)
  have hreason : '\n' ∉ reasonText d.reason := by
    unfold reasonText
    split <;> simp [h.reason_line]
  simp [body, hkeyword, hmarker, hrule, hreason]

/-- The last character of a line comment belongs to its rule or its reason. -/
theorem getLast?_asLine_ne_return : d.asLine.getLast? ≠ some '\r' := by
  have hsplit : d.asLine =
      (d.before ++ '/' :: '/' :: ' ' :: (marker ++ (d.keyword.text ++ [' ']))) ++
        (d.rule ++ reasonText d.reason) := by
    simp [asLine, body]
  have hne : d.rule ++ reasonText d.reason ≠ [] := by simp [h.rule_ne_nil]
  rw [hsplit, List.getLast?_append_of_ne_nil _ hne]
  intro hlast
  have hblank : isBlank '\r' = false := by
    by_cases hempty : d.reason = []
    · rw [reasonText, if_pos hempty, List.append_nil] at hlast
      exact h.rule_dense _ (List.mem_of_getLast? hlast)
    · rw [reasonText, if_neg hempty, List.getLast?_append_of_ne_nil _ (by simp)] at hlast
      have hreason : d.reason.getLast? = some '\r' := by
        cases hd : d.reason with
        | nil => exact absurd hd hempty
        | cons c cs => simpa [hd, List.getLast?_cons_cons] using hlast
      rw [← h.reason_trim] at hreason
      exact not_blank_of_getLast?_trim hreason
  exact absurd hblank (by decide)

end DirectiveComment.Writable

/-! ## Lines -/

theorem infix_of_mem_splitLines {text line : List Char} (h : line ∈ splitLines text) :
    line <:+: text := by
  rw [← map_snd_placedLines 0] at h
  obtain ⟨⟨start, line⟩, hmem, rfl⟩ := List.mem_map.mp h
  obtain ⟨i, hi⟩ := List.getElem?_of_mem hmem
  obtain ⟨_, -, before, after, rfl, -⟩ := lineAt_of_placedLines hi
  exact ⟨before, after, by simp⟩

structure OtherLines (above below : List Char) : Prop where
  above_ends : EndsLine above
  below_begins : below = [] ∨ ['\n'] <+: below ∨ ['\r', '\n'] <+: below
  above_unmarked : ¬marker <:+: above
  below_unmarked : ¬marker <:+: below

theorem OtherLines.firstLine_below {above below : List Char} (h : OtherLines above below) :
    firstLine below = [] := by
  rcases h.below_begins with rfl | ⟨rest, rfl⟩ | ⟨rest, rfl⟩ <;> simp [firstLine, splitLines]

theorem OtherLines.ofChars_eq {above below line : List Char} (h : OtherLines above below)
    (hne : line ≠ []) (hnewline : '\n' ∉ line) (hreturn : line.getLast? ≠ some '\r')
    {d : DirectiveComment} (hd : directive? line = some d)
    (hfile : d.keyword = .ignoreFile → above.count '\n' + 1 ≤ lastFileDirectiveLine)
    (file : String) :
    Suppression.ofChars file (above ++ (line ++ below)) =
      [d.suppression file (above.count '\n' + 1)] := by
  obtain ⟨happend, hlength⟩ := splitLines_append h.above_ends (line ++ below)
  have habove : ∀ l ∈ splitLines above, directive? l = none := fun l hl =>
    directive?_eq_none fun hmarker => h.above_unmarked (hmarker.trans (infix_of_mem_splitLines hl))
  have hbelow : ∀ l ∈ (splitLines below).tail, directive? l = none := fun l hl =>
    directive?_eq_none fun hmarker =>
      h.below_unmarked (hmarker.trans (infix_of_mem_splitLines (List.mem_of_mem_tail hl)))
  rw [Suppression.ofChars, happend, splitLines_line hne hnewline hreturn h.firstLine_below,
    Suppression.ofLines_append, Suppression.ofLines_of_none habove, hlength, Nat.add_comm 1,
    Suppression.ofLines, Suppression.ofLine?_of_directive hd hfile,
    Suppression.ofLines_of_none hbelow]
  rfl

/-- A directive that is written as a line comment is the only one of its text, and what it
suppresses is what it asks for on its line. So is one that is written as a block comment, if its
rule has no hyphen in it and neither rule nor reason ends the comment. -/
theorem DirectiveComment.Writable.ofSource_written {d : DirectiveComment} (h : d.Writable)
    {above below : List Char} (hother : OtherLines above below)
    (hfile : d.keyword = .ignoreFile → above.count '\n' + 1 ≤ 10) (file : String) :
    Suppression.ofSource file (String.ofList (above ++ (d.asLine ++ below))) =
      [d.suppression file (above.count '\n' + 1)] ∧
    ('-' ∉ d.rule → ¬commentEnd <:+: d.rule → ¬commentEnd <:+: d.reason →
      Suppression.ofSource file (String.ofList (above ++ (d.asBlock ++ below))) =
        [d.suppression file (above.count '\n' + 1)]) := by
  have hbody := h.newline_not_mem_body
  unfold Suppression.ofSource
  rw [String.toList_ofList, String.toList_ofList]
  constructor
  · have hd : directive? d.asLine = some d := by
      rw [directive?, h.lineDirective?_asLine]
      rfl
    have hnewline : '\n' ∉ d.asLine := by simp [asLine, h.before_line, hbody]
    exact hother.ofChars_eq (by simp [asLine]) hnewline h.getLast?_asLine_ne_return hd hfile file
  · intro hhyphen hrule hreason
    have hd : directive? d.asBlock = some d := by
      rw [directive?, h.lineDirective?_asBlock, h.blockDirective?_asBlock hhyphen hrule hreason]
      rfl
    have hnewline : '\n' ∉ d.asBlock := by simp [asBlock, commentEnd, h.before_line, hbody]
    have hsplit : d.asBlock =
        (d.before ++ '/' :: '*' :: ' ' :: (d.body ++ [' ', '*'])) ++ ['/'] := by
      simp [asBlock, commentEnd]
    have hlast : d.asBlock.getLast? ≠ some '\r' := by
      rw [hsplit, List.getLast?_concat]
      decide
    exact hother.ofChars_eq (by simp [asBlock]) hnewline hlast hd hfile file

/-- Behind code in the second line of a text with carriage returns, with stars and a hyphen. -/
theorem DirectiveComment.Writable.ofSource_written_behind_code :
    ∃ d : DirectiveComment, d.Writable ∧
      d.asLine = "F(); // interpcheck:ignore A* - b* - /c".toList ∧
      d.asBlock = "F(); /* interpcheck:ignore A* - b* - /c */".toList ∧
      Suppression.ofSource "a.cs"
          (String.ofList ("\ufeff// x\n".toList ++ (d.asLine ++ "\r\n".toList))) =
        [⟨"A*", "b* - /c", "a.cs", 2, .line⟩] ∧
      Suppression.ofSource "a.cs"
          (String.ofList ("\ufeff// x\n".toList ++ (d.asBlock ++ "\r\n".toList))) =
        [⟨"A*", "b* - /c", "a.cs", 2, .line⟩] := by
  have hdense : "A*".toList.all (isBlank · == false) = true := by decide
  have hd : Writable ⟨"F(); ".toList, .ignore, "A*".toList, "b* - /c".toList⟩ := by
    constructor
    case rule_dense => simpa using hdense
    all_goals decide +kernel
  have hother : OtherLines "\ufeff// x\n".toList "\r\n".toList := by
    constructor
    case above_ends => exact .inr (by decide +kernel)
    all_goals decide +kernel
  obtain ⟨hline, hblock⟩ := hd.ofSource_written hother nofun "a.cs"
  have hclosed := hblock (by decide +kernel) (by decide +kernel) (by decide +kernel)
  exact ⟨_, hd, by decide +kernel, by decide +kernel, hline.trans (by decide +kernel),
    hclosed.trans (by decide +kernel)⟩

end InterpolationLint
