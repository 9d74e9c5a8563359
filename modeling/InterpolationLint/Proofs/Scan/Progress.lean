import InterpolationLint.Proofs.Scan.Newlines

/-!
# The scanner moves on and stays in its text

Wherever the scanner comes to, what it reads there takes it forward and no farther than the end of
the text, or fails. So do the items of a list, the segments of a string and a hole, with any budget
that is linear in the length of the text. The text it copies, the run lengths it subtracts and the
line it looks back on are all in range.
-/

namespace InterpolationLint

/-! ## What one lexeme comes to -/

/-- What the scanner makes of a lexeme at a place: an item or none, and the place behind it. -/
def scanLexeme (budget : Nat) (c : Cursor) : Lexeme → Except Halt (List Expr × Cursor)
  | .stop => .ok ([], c)
  | .broken problem => .error (.failed ⟨problem, c.offset⟩)
  | .trivia length => .ok ([], c.advance length)
  | .literal length => .ok ([.literal (c.span length)], c.advance length)
  | .code length => .ok ([.code (c.span length)], c.advance length)
  | .opening delimiter bracket close =>
    scanItems budget [close] (c.advance 1) >>= fun r =>
      if r.2.ahead.head? = some close then
        .ok ([.group delimiter ⟨c.offset, r.2.offset + 1⟩ r.1], r.2.advance 1)
      else .error (.failed ⟨.unbalanced bracket, c.offset⟩)
  | .string kind marker =>
    scanSegments budget kind c.offset (c.enter marker) (c.enter marker) >>= fun r =>
      .ok ([.interpolated ⟨c.opened, kind, ⟨c.offset, r.2.offset + kind.quotes⟩,
        ⟨c.offset + marker, r.2.offset⟩, r.1⟩], r.2.advance kind.quotes)

/-- The scanner takes a list of items lexeme by lexeme. -/
theorem scanItems_succ (budget : Nat) (stops : List Char) (c : Cursor) :
    scanItems (budget + 1) stops c =
      if Lexeme.read stops c.lineStart c.ahead = .stop then .ok ([], c)
      else scanLexeme budget c (Lexeme.read stops c.lineStart c.ahead) >>= fun r =>
        prepend r.1 (scanItems budget stops r.2) := by
  rw [scanItems]
  cases Lexeme.read stops c.lineStart c.ahead with
  | stop => rfl
  | broken problem => rfl
  | trivia length => exact (prepend_nil _).symm
  | literal length =>
    simp only [scanLexeme, bind, Except.bind, reduceCtorEq, ite_false]
    cases scanItems budget stops (c.advance length) <;> rfl
  | code length =>
    simp only [scanLexeme, bind, Except.bind, reduceCtorEq, ite_false]
    cases scanItems budget stops (c.advance length) <;> rfl
  | opening delimiter bracket close =>
    simp only [scanLexeme, bind, Except.bind, reduceCtorEq, ite_false]
    cases scanItems budget [close] (c.advance 1) with
    | error halt => rfl
    | ok r =>
      dsimp only
      split
      · dsimp only
        cases scanItems budget stops (r.2.advance 1) <;> rfl
      · rfl
  | string kind marker =>
    simp only [scanLexeme, bind, Except.bind, reduceCtorEq, ite_false]
    cases scanSegments budget kind c.offset (c.enter marker) (c.enter marker) with
    | error halt => rfl
    | ok r =>
      dsimp only
      cases scanItems budget stops (r.2.advance kind.quotes) <;> rfl

theorem scanLexeme_kept (budget : Nat) (c : Cursor) (lexeme : Lexeme) :
    KeptBy (scanLexeme budget c lexeme) (scanLexeme (budget + 1) c lexeme) := by
  cases lexeme with
  | opening => exact (scanItems_kept budget _ _).bind fun _ => .refl _
  | string => exact (scanSegments_kept budget _ _ _ _).bind fun _ => .refl _
  | _ => exact .refl _

theorem scanLexeme_settled {budget : Nat} {stops : List Char} {c : Cursor}
    (h : 2 * c.ahead.length + 1 ≤ budget) :
    Settled (scanLexeme budget c (Lexeme.read stops c.lineStart c.ahead)) := by
  have hinside : ∀ n, 2 * (c.ahead.drop n).length + 1 ≤ budget := by
    intro n
    rw [List.length_drop]
    omega
  cases Lexeme.read stops c.lineStart c.ahead with
  | opening =>
    refine (scanItems_settled budget _ _ (hinside 1)).bind fun r _ => ?_
    split
    · exact settled_ok _
    · nofun
  | string kind marker =>
    exact (scanSegments_settled budget _ _ _ _ (hinside marker)).bind fun _ _ => settled_ok _
  | broken => nofun
  | _ => exact settled_ok _

/-! ## Answers -/

/-- From `enough` steps on a call of the scanner has one answer: it fails, or it returns a result of
some kind. -/
def Answers {α : Type} (enough : Nat) (scan : Nat → Except Halt α) (returns : α → Prop) : Prop :=
  (∃ failure, ∀ budget, enough ≤ budget → scan budget = .error (.failed failure)) ∨
  ∃ a, returns a ∧ ∀ budget, enough ≤ budget → scan budget = .ok a

theorem Answers.of_kept {α : Type} {enough : Nat} {scan : Nat → Except Halt α} {returns : α → Prop}
    (hkept : ∀ budget, KeptBy (scan budget) (scan (budget + 1))) (hsettled : Settled (scan enough))
    (hreturns : ∀ a, scan enough = .ok a → returns a) : Answers enough scan returns := by
  have hsame : ∀ budget, enough ≤ budget → scan budget = scan enough :=
    fun _ hle => eq_of_kept hkept hsettled hle
  cases hscan : scan enough with
  | ok a => exact .inr ⟨a, hreturns a hscan, fun budget hle => (hsame budget hle).trans hscan⟩
  | error halt =>
    cases halt with
    | exhausted => exact absurd hscan hsettled
    | failed failure => exact .inl ⟨failure, fun budget hle => (hsame budget hle).trans hscan⟩

/-! ## Steady places -/

/-- `d` is behind `c`, and at the end of the text at most. -/
def Cursor.MovesTo (text : List Char) (c d : Cursor) : Prop :=
  c.offset < d.offset ∧ d.offset ≤ text.length

/-- A backslash at `c` takes the next character with it. Where there is none, the place behind both
is beyond the end of the text by one, and the string that was opened at `opened` is not closed. -/
def EscapeInRange (text : List Char) (opened : Nat) (c : Cursor) : Prop :=
  (c.advance 2).offset ≤ text.length ∨
  (c.advance 2).offset = text.length + 1 ∧
    SourceTree.ofChars text = .error ⟨.unterminatedString, opened⟩

/-- A run of `mark` in a raw string is too short, or it exceeds the need by some surplus. The surplus is
text, and what is left of the run means `part`. -/
def RunInRange (kind : StringKind) (cs : List Char) (mark : Char) (needed : Nat)
    (part : StringPart) : Prop :=
  cs.head? = some mark → runLength mark cs < needed ∨ ∃ surplus,
    runLength mark cs = needed + surplus ∧
      StringPart.read kind cs = if surplus = 0 then part else .text surplus

structure ItemsSteady (text stops : List Char) (c : Cursor) : Prop where
  step : ∀ budget, scanItems (budget + 1) stops c =
    if Lexeme.read stops c.lineStart c.ahead = .stop then .ok ([], c)
    else scanLexeme budget c (Lexeme.read stops c.lineStart c.ahead) >>= fun r =>
      prepend r.1 (scanItems budget stops r.2)
  /-- What begins here is left behind. -/
  lexeme : Lexeme.read stops c.lineStart c.ahead ≠ .stop → Answers (2 * text.length + 1)
    (fun budget => scanLexeme budget c (Lexeme.read stops c.lineStart c.ahead))
    fun r => c.MovesTo text r.2
  items : Answers (2 * text.length + 1) (fun budget => scanItems budget stops c)
    fun r => c.offset ≤ r.2.offset ∧ r.2.offset ≤ text.length ∧
      (stops = [] → r.2.offset = text.length)
  /-- The line before the place is looked back on up to its newline. -/
  lineStart : c.offset ≤ text.length ∧
    c.lineStart = (((text.take c.offset).reverse.takeWhile (· != '\n')).all isIndent)
  escape : ∀ quote body rest, quote = '"' ∨ quote = '\'' → Escaped [quote, '\n'] body →
    c.ahead = quote :: (body ++ '\\' :: rest) →
    EscapeInRange text c.offset (c.advance (body.length + 1))

structure SegmentsSteady (text : List Char) (kind : StringKind) (opened : Nat) (pending c : Cursor) :
    Prop where
  segments : Answers (2 * text.length + 1) (fun budget => scanSegments budget kind opened pending c)
    fun r => c.offset ≤ r.2.offset ∧ r.2.offset + kind.quotes ≤ text.length
  part : ∀ length, StringPart.read kind c.ahead = .text length →
    c.MovesTo text (c.advance length)
  /-- The pending text is a slice of the text. -/
  slice : TextRange.Holds text ⟨pending.offset, c.offset⟩ (pending.textUpTo c)
  run : ∀ dollars quotes, kind = .raw dollars quotes →
    RunInRange kind c.ahead '"' quotes .close ∧ RunInRange kind c.ahead '\x7b' dollars .hole
  escape : kind = .regular → c.ahead.head? = some '\\' → EscapeInRange text opened c

def ScanPlace.Steady (text : List Char) : ScanPlace → Prop
  | .items stops c => ItemsSteady text stops c
  | .segments kind opened pending c => SegmentsSteady text kind opened pending c
  | .hole braces c => Answers (2 * text.length + 1) (fun budget => scanHole budget braces c)
    fun r => c.MovesTo text r.2

/-! ## Places in range -/

section
variable {text : List Char} {c : Cursor}

theorem Cursor.Within.movesTo {d : Cursor} (hc : c.Within text) (h : c.Reaches d)
    (hlt : c.offset < d.offset) : c.MovesTo text d :=
  ⟨hlt, (hc.reaches h).offset_le⟩

theorem Cursor.Within.movesTo_advance (hc : c.Within text) {n : Nat}
    (h : 1 ≤ n ∧ n ≤ c.ahead.length) : c.MovesTo text (c.advance n) :=
  hc.movesTo (.advance c h.2) (Nat.lt_add_of_pos_right h.1)

theorem lineStartAfter_eq_all (cs : List Char) :
    lineStartAfter true cs = (cs.reverse.takeWhile (· != '\n')).all isIndent := by
  induction cs using List.reverseRecOn with
  | nil => rfl
  | append_singleton cs a ih =>
    rw [lineStartAfter_concat, ih, List.reverse_append, List.reverse_singleton,
      List.singleton_append]
    by_cases ha : a = '\n'
    · simp [ha]
    · simp [ha, Bool.and_comm]

theorem Cursor.Within.lineStart_eq (hc : c.Within text) :
    c.lineStart = ((text.take c.offset).reverse.takeWhile (· != '\n')).all isIndent := by
  obtain ⟨before, hbefore⟩ := hc
  have htext : text = before ++ c.ahead := hbefore.ahead
  have hoffset : c.offset = 0 + before.length := hbefore.offset
  rw [htext, hoffset, Nat.zero_add, List.take_left, ← lineStartAfter_eq_all]
  exact hbefore.lineStart

theorem Cursor.Within.escapeInRange (hc : c.Within text) {rest : List Char} {opened : Nat}
    (hahead : c.ahead = '\\' :: rest)
    (hfails : rest = [] → SourceTree.ofChars text = .error ⟨.unterminatedString, opened⟩) :
    EscapeInRange text opened c := by
  have hlength := hc.offset_add
  rw [hahead, List.length_cons] at hlength
  unfold EscapeInRange
  rw [advance_offset]
  cases rest with
  | nil =>
    refine .inr ⟨?_, hfails rfl⟩
    rw [List.length_nil] at hlength
    omega
  | cons d rest =>
    left
    rw [List.length_cons] at hlength
    omega

/-- Pending text began at an earlier place of the text, and a hole has a brace. -/
def ScanPlace.Anchored (text : List Char) : ScanPlace → Prop
  | .items _ _ => True
  | .segments _ _ pending c => pending.Within text ∧ pending.Reaches c
  | .hole braces _ => 1 ≤ braces

theorem ScanPlace.Calls.anchored {place next : ScanPlace} (h : place.Calls next)
    (hsound : next.Sound text) (hanchored : place.Anchored text) : next.Anchored text := by
  cases h with
  | segments => exact ⟨hsound.1, .refl _⟩
  | text hread =>
    exact ⟨hanchored.1, hanchored.2.trans (.advance _ (Cursor.fits_of_part hread).2)⟩
  | hole hread => exact (Cursor.fits_of_part hread).1
  | behindHole => exact ⟨hsound.1, .refl _⟩
  | _ => trivial

theorem Visited.anchored {place : ScanPlace} (h : Visited text place) : place.Anchored text := by
  induction h with
  | start => trivial
  | step h hcalls ih => exact hcalls.anchored (h.step hcalls).sound ih

/-! ## Items -/

theorem scanLexeme_movesTo {budget : Nat} {stops : List Char} {lexeme : Lexeme}
    {r : List Expr × Cursor} (hc : c.Within text)
    (hread : Lexeme.read stops c.lineStart c.ahead = lexeme) (hstop : lexeme ≠ .stop)
    (h : scanLexeme budget c lexeme = .ok r) : c.MovesTo text r.2 := by
  have hfits := Cursor.fits_of_read hread
  cases lexeme with
  | stop => exact absurd rfl hstop
  | broken => cases h
  | trivia =>
    cases h
    exact hc.movesTo_advance hfits
  | literal =>
    cases h
    exact hc.movesTo_advance hfits
  | code =>
    cases h
    exact hc.movesTo_advance hfits
  | opening =>
    obtain ⟨⟨children, inner⟩, hchildren, h⟩ := bind_eq_ok h
    dsimp only at h
    split at h
    · cases h
      have hopening := Cursor.Reaches.advance c (one_le_of_head? hfits.1)
      have hinner := hopening.trans (itemsRun_of_scan budget hchildren).reaches
      refine hc.movesTo (hinner.trans (.advance _ (one_le_of_head? ‹_›))) ?_
      exact Nat.lt_succ_of_le hinner.offset_le
    · cases h
  | string kind marker =>
    obtain ⟨⟨segments, inner⟩, hsegments, h⟩ := bind_eq_ok h
    cases h
    have hrun := segmentsRun_of_scan budget hsegments
    have hquotes := Cursor.fits_of_part hrun.closes
    have hinner := (Cursor.Reaches.enter c (marker_le hfits).2).trans hrun.reaches
    refine hc.movesTo (hinner.trans (Cursor.reaches_run hquotes.2)) ?_
    exact Nat.lt_of_le_of_lt hinner.offset_le (Nat.lt_add_of_pos_right hquotes.1)

theorem Visited.lexeme_answers {stops : List Char} (h : Visited text (.items stops c))
    (hstop : Lexeme.read stops c.lineStart c.ahead ≠ .stop) : Answers (2 * text.length + 1)
      (fun budget => scanLexeme budget c (Lexeme.read stops c.lineStart c.ahead))
      fun r => c.MovesTo text r.2 := by
  have hlength := h.sound.1.offset_add
  refine .of_kept (fun budget => scanLexeme_kept budget c _) (scanLexeme_settled (by omega)) ?_
  exact fun r hr => scanLexeme_movesTo h.sound.1 rfl hstop hr

theorem Visited.items_answers {stops : List Char} (h : Visited text (.items stops c)) :
    Answers (2 * text.length + 1) (fun budget => scanItems budget stops c)
      fun r => c.offset ≤ r.2.offset ∧ r.2.offset ≤ text.length ∧
        (stops = [] → r.2.offset = text.length) := by
  have hlength := h.sound.1.offset_add
  refine .of_kept (fun budget => scanItems_kept budget stops c)
    (scanItems_settled _ stops c (by omega)) ?_
  rintro ⟨items, final⟩ hscan
  have hrun := itemsRun_of_scan _ hscan
  have hfinal := h.sound.1.reaches hrun.reaches
  refine ⟨hrun.reaches.offset_le, hfinal.offset_le, ?_⟩
  rintro rfl
  exact hfinal.ends hrun.stops

theorem Visited.literal_escape {stops : List Char} {quote : Char} {body rest : List Char}
    (h : Visited text (.items stops c)) (hquote : quote = '"' ∨ quote = '\'')
    (hbody : Escaped [quote, '\n'] body) (hahead : c.ahead = quote :: (body ++ '\\' :: rest)) :
    EscapeInRange text c.offset (c.advance (body.length + 1)) := by
  have hinside : c.Reaches (c.advance (body.length + 1)) := by
    refine .advance c ?_
    simp only [hahead, List.length_cons, List.length_append]
    omega
  have hescape : (c.advance (body.length + 1)).ahead = '\\' :: rest := by
    rw [Cursor.advance_ahead, hahead, List.drop_succ_cons, List.drop_left]
  refine (h.sound.1.reaches hinside).escapeInRange hescape ?_
  rintro rfl
  exact h.unterminated hquote hahead hbody (by simp [quotedTail])

theorem Visited.itemsSteady {stops : List Char} (h : Visited text (.items stops c)) :
    ItemsSteady text stops c where
  step budget := scanItems_succ budget stops c
  lexeme := h.lexeme_answers
  items := h.items_answers
  lineStart := ⟨h.sound.1.offset_le, h.sound.1.lineStart_eq⟩
  escape _ _ _ := h.literal_escape

/-! ## Strings and holes -/

theorem RawMark.runInRange {dollars quotes needed : Nat} {mark : Char} {part : StringPart}
    (h : RawMark dollars quotes mark needed part) (cs : List Char) :
    RunInRange (.raw dollars quotes) cs mark needed part := by
  intro hhead
  obtain ⟨rest, rfl⟩ := List.head?_eq_some_iff.mp hhead
  have hrun : 1 ≤ runLength mark (mark :: rest) := by
    rw [runLength_cons_self]
    omega
  rcases Nat.lt_or_ge (runLength mark (mark :: rest)) needed with hshort | hlong
  · exact .inl hshort
  · obtain ⟨surplus, hsurplus⟩ := Nat.exists_eq_add_of_le hlong
    refine .inr ⟨surplus, hsurplus, ?_⟩
    rw [h.read_eq hrun, StringPart.ofRun, if_neg (Nat.not_lt.mpr hlong), hsurplus,
      Nat.add_sub_cancel_left]
    simp only [Nat.add_eq_left]

theorem Visited.segmentsSteady {kind : StringKind} {opened : Nat} {pending : Cursor}
    (h : Visited text (.segments kind opened pending c)) :
    SegmentsSteady text kind opened pending c where
  segments := by
    have hlength := h.sound.1.offset_add
    refine .of_kept (fun budget => scanSegments_kept budget kind opened pending c)
      (scanSegments_settled _ kind opened pending c (by omega)) ?_
    rintro ⟨segments, final⟩ hscan
    have hrun := segmentsRun_of_scan _ hscan
    have hquotes := Cursor.reaches_run (Cursor.fits_of_part hrun.closes).2
    exact ⟨hrun.reaches.offset_le, (h.sound.1.reaches (hrun.reaches.trans hquotes)).offset_le⟩
  part length hread := h.sound.1.movesTo_advance (Cursor.fits_of_part hread)
  slice := by
    obtain ⟨hpending, read, hread⟩ := h.anchored
    rw [hread.textUpTo]
    exact hpending.holds hread
  run := by
    rintro dollars quotes rfl
    obtain ⟨-, _, hopening⟩ := h.sound
    obtain ⟨_, _, -, -, hmarked⟩ := opening?_marked hopening
    obtain ⟨hdollars, hquotes⟩ := hmarked.raw_pos
    exact ⟨(RawMark.close (by omega)).runInRange _, (RawMark.hole hdollars).runInRange _⟩
  escape := by
    rintro rfl hhead
    obtain ⟨rest, hahead⟩ := List.head?_eq_some_iff.mp hhead
    refine h.sound.1.escapeInRange hahead ?_
    rintro rfl
    exact h.fails (ScanPlace.fails_of_broken_text (by rw [hahead, StringPart.read]))

theorem Visited.hole_answers {braces : Nat} (h : Visited text (.hole braces c)) :
    Answers (2 * text.length + 1) (fun budget => scanHole budget braces c)
      fun r => c.MovesTo text r.2 := by
  have hlength := h.sound.1.offset_add
  have hbraces : 1 ≤ braces ∧ braces ≤ runLength '\x7b' c.ahead := ⟨h.anchored, h.sound.2⟩
  refine .of_kept (fun budget => scanHole_kept budget braces c)
    (scanHole_settled _ braces c hbraces (by omega)) ?_
  rintro ⟨hole, after⟩ hscan
  have hrun := holeRun_of_scan _ hscan
  have hreaches := hrun.reaches hbraces.2
  have hlt := hrun.advances hbraces
  have hsum := hreaches.ahead_length
  refine h.sound.1.movesTo hreaches ?_
  dsimp only
  omega

theorem Visited.steady {place : ScanPlace} (h : Visited text place) : place.Steady text := by
  cases place with
  | items stops c => exact h.itemsSteady
  | segments kind opened pending c => exact h.segmentsSteady
  | hole braces c => exact h.hole_answers

end

/-- Every place the scanner comes to is steady: what is read there moves on and stays in the text, and
all it cuts out of the text is in range. So scanning comes to an end. A budget of twice the length of
the text and one is enough, and more of it changes nothing. -/
theorem SourceTree.scan_steady (source : String) :
    (∀ place, Visited source.toList place → place.Steady source.toList) ∧
    ((∃ failure, SourceTree.ofSource source = .error failure ∧
        ∀ budget, 2 * source.length + 1 ≤ budget →
          scanItems budget [] (.atStart source.toList) = .error (.failed failure)) ∨
      ∃ items final, SourceTree.ofSource source = .ok ⟨items, LineIndex.ofText source⟩ ∧
        final.offset = source.length ∧ ∀ budget, 2 * source.length + 1 ≤ budget →
          scanItems budget [] (.atStart source.toList) = .ok (items, final)) := by
  have hbudget : scanBudget source.toList.length = 2 * source.length + 1 := by
    rw [scanBudget, String.length_toList]
  refine ⟨fun place hplace => hplace.steady, ?_⟩
  unfold SourceTree.ofSource SourceTree.ofChars scanText
  rw [hbudget]
  have hanswers := (@Visited.start source.toList).items_answers
  rw [String.length_toList] at hanswers
  rcases hanswers with ⟨failure, hfails⟩ | ⟨⟨items, final⟩, ⟨-, -, hends⟩, hscan⟩
  · left
    refine ⟨failure, ?_, hfails⟩
    have hlast : scanItems (2 * source.length + 1) [] (.atStart source.toList) =
        .error (.failed failure) := hfails _ (Nat.le_refl _)
    rw [hlast]
    rfl
  · right
    refine ⟨items, final, ?_, hends rfl, hscan⟩
    have hlast : scanItems (2 * source.length + 1) [] (.atStart source.toList) =
        .ok (items, final) := hscan _ (Nat.le_refl _)
    rw [hlast]
    rfl

/-- In a hole, an escape in a character literal that goes over the end of the text. -/
theorem SourceTree.scan_steady_in_hole : ∃ source c, source = "$\"\x7b'\\" ∧
    Visited source.toList (.items expressionStops c) ∧ c.ahead = ['\'', '\\'] ∧
    ItemsSteady source.toList expressionStops c ∧ (c.advance 3).offset = source.length + 1 ∧
    SourceTree.ofSource source = .error ⟨.unterminatedString, 3⟩ := by
  have hhole := ((@Visited.start "$\"\x7b'\\".toList).step (.segments rfl)).step (.hole rfl)
  have hplace := hhole.step .expression
  have hsteady := (SourceTree.scan_steady _).1 _ hplace
  refine ⟨_, _, rfl, hplace, rfl, hsteady, rfl, ?_⟩
  rcases hsteady.escape '\'' [] [] (.inr rfl) .nil rfl with hinside | ⟨-, hfails⟩
  · exact absurd hinside (by decide)
  · exact hfails

end InterpolationLint
