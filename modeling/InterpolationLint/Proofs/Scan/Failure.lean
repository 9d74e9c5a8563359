import InterpolationLint.Proofs.Scan.Derivation

/-!
# Where failures point

A text that cannot be scanned has the construct at fault at the offset of the failure: the quote,
the marker, the brace or the comment that is opened and never closed, or the bracket without a
partner.
-/

namespace InterpolationLint

def ScanProblem.Begins (cs : List Char) : ScanProblem → Prop
  | .unterminatedString => ∃ c ∈ ['"', '\'', '$', '@'], cs.head? = some c
  | .unterminatedHole => cs.head? = some '\x7b'
  | .unterminatedComment => cs[0]? = some '/' ∧ cs[1]? = some '*'
  | .unbalanced bracket =>
    bracket ∈ ['(', ')', '[', ']', '\x7b', '\x7d'] ∧ cs.head? = some bracket

theorem ScanProblem.Begins.ne_nil {problem : ScanProblem} {cs : List Char}
    (h : problem.Begins cs) : cs ≠ [] := by
  rintro rfl
  cases problem <;> simp [ScanProblem.Begins] at h

/-! ## Lexemes -/

theorem mem_brackets_of_bracket? {c : Char} {r : Delimiter × Char} (h : bracket? c = some r) :
    c ∈ ['(', ')', '[', ']', '\x7b', '\x7d'] := by
  unfold bracket? at h
  split at h <;> simp_all

theorem mem_brackets_of_isClosing {c : Char} (h : isClosing c = true) :
    c ∈ ['(', ')', '[', ']', '\x7b', '\x7d'] := by
  simp only [isClosing, Bool.or_eq_true, beq_iff_eq] at h
  rcases h with (rfl | rfl) | rfl <;> simp

theorem begins_of_opening? {cs : List Char} {kind : StringKind} {marker : Nat}
    (h : opening? cs = some (kind, marker)) : ScanProblem.unterminatedString.Begins cs := by
  rcases opening?_cases h with ⟨-, -, rest, rfl | rfl⟩ |
    ⟨dollars, quotes, -, -, hd, -, hdollars, -⟩ | ⟨-, -, rest, rfl⟩
  · exact ⟨'$', by simp, rfl⟩
  · exact ⟨'@', by simp, rfl⟩
  · rcases runLength_eq_zero_or '$' cs with hzero | ⟨rest, rfl⟩
    · omega
    · exact ⟨'$', by simp, rfl⟩
  · exact ⟨'$', by simp, rfl⟩

theorem Lexeme.begins_of_ofLiteral? {length? : Option Nat} {problem : ScanProblem} {c : Char}
    {rest : List Char} (h : Lexeme.ofLiteral? length? = .broken problem)
    (hc : c ∈ ['"', '\'', '$', '@']) : problem.Begins (c :: rest) := by
  cases length? with
  | some n => cases h
  | none =>
    cases h
    exact ⟨c, hc, rfl⟩

theorem Lexeme.begins_of_ofItem {stops cs : List Char} {problem : ScanProblem}
    (h : Lexeme.ofItem stops cs = .broken problem) : problem.Begins cs := by
  unfold Lexeme.ofItem at h
  split at h
  · cases h
  · split at h
    · cases h
    · exact begins_of_ofLiteral? h (by simp)
    · exact begins_of_ofLiteral? h (by simp)
    · exact begins_of_ofLiteral? h (by simp)
    · split at h
      · cases h
      · split at h
        · cases h
        · split at h
          · cases h
            exact ⟨mem_brackets_of_isClosing ‹_›, rfl⟩
          · cases h

theorem Lexeme.begins_of_read {stops : List Char} {lineStart : Bool} {cs : List Char}
    {problem : ScanProblem} (h : Lexeme.read stops lineStart cs = .broken problem) :
    problem.Begins cs := by
  unfold Lexeme.read at h
  split at h
  · cases h
  · rename_i c rest
    split at h
    · cases h
    · split at h
      · cases h
      · split at h
        · cases h
        · split at h
          · rename_i hstar
            split at h
            · cases h
            · cases h
              simpa [ScanProblem.Begins, List.head?_eq_getElem?] using hstar
          · split at h
            · cases h
            · exact Lexeme.begins_of_ofItem h

/-! ## Runs that fail -/

def ScanFailure.PointsInto (text : List Char) (failure : ScanFailure) : Prop :=
  failure.problem.Begins (text.drop failure.offset)

def FailsIn {α : Type} (text : List Char) (r : Except Halt α) : Prop :=
  ∀ failure, r = .error (.failed failure) → failure.PointsInto text

namespace FailsIn

variable {text : List Char} {α β : Type}

theorem ok (a : α) : FailsIn text (.ok a) := nofun

theorem exhausted : FailsIn text (.error .exhausted : Except Halt α) := nofun

theorem failed {problem : ScanProblem} {offset : Nat}
    (h : problem.Begins (text.drop offset)) :
    FailsIn text (.error (.failed ⟨problem, offset⟩) : Except Halt α) := by
  intro failure heq
  cases heq
  exact h

theorem bind {x : Except Halt α} {f : α → Except Halt β} (hx : FailsIn text x)
    (hf : ∀ a, x = .ok a → FailsIn text (f a)) : FailsIn text (x >>= f) := by
  cases x with
  | error halt =>
    intro failure heq
    cases heq
    exact hx failure rfl
  | ok a => exact hf a rfl

end FailsIn

section
variable {text : List Char}

theorem closeHole_failsIn {braces : Nat} {start c : Cursor} {expression : Expr}
    {alignment : Option Expr} {format : Option TextRange} (hstart : start.Within text)
    (hbraces : 1 ≤ braces ∧ braces ≤ runLength '\x7b' start.ahead) :
    FailsIn text (closeHole braces start.offset expression alignment format c) := by
  unfold closeHole
  split
  · refine .failed ?_
    rw [hstart.drop_offset]
    rcases runLength_eq_zero_or '\x7b' start.ahead with hzero | ⟨rest, hrest⟩
    · omega
    · rw [hrest]
      rfl
  · exact .ok _

mutual

theorem scanItems_failsIn : ∀ (budget : Nat) (stops : List Char) (c : Cursor), c.Within text →
    FailsIn text (scanItems budget stops c)
  | 0, _, _, _ => by
    rw [scanItems]
    exact .exhausted
  | budget + 1, stops, c, hc => by
    rw [scanItems]
    split
    · exact .ok _
    · rename_i problem hread
      refine .failed ?_
      rw [hc.drop_offset]
      exact Lexeme.begins_of_read hread
    · rename_i length hread
      exact scanItems_failsIn budget _ _ (hc.reaches (Cursor.reaches_of_read hread))
    · rename_i length hread
      refine (scanItems_failsIn budget _ _ ?_).bind fun _ _ => .ok _
      exact hc.reaches (Cursor.reaches_of_read hread)
    · rename_i length hread
      refine (scanItems_failsIn budget _ _ ?_).bind fun _ _ => .ok _
      exact hc.reaches (Cursor.reaches_of_read hread)
    · rename_i delimiter bracket close hread
      have hinside := hc.reaches (Cursor.reaches_of_read hread)
      refine (scanItems_failsIn budget _ _ hinside).bind ?_
      rintro ⟨children, inner⟩ hchildren
      have hinner := hinside.reaches (itemsRun_of_scan budget hchildren).reaches
      dsimp only
      split
      · refine (scanItems_failsIn budget _ _ ?_).bind fun _ _ => .ok _
        exact hinner.reaches (.advance _ (one_le_of_head? ‹_›))
      · -- what is never closed is reported where it opens
        have hfits := Cursor.fits_of_read hread
        refine .failed ⟨mem_brackets_of_bracket? hfits.2, ?_⟩
        rw [hc.drop_offset]
        exact hfits.1
    · rename_i kind marker hread
      have hopening := Cursor.fits_of_read hread
      have hinside := hc.reaches (.enter c (marker_le hopening).2)
      have hbegins : ScanProblem.unterminatedString.Begins (text.drop c.offset) := by
        rw [hc.drop_offset]
        exact begins_of_opening? hopening
      refine (scanSegments_failsIn budget kind hbegins _ _ hinside).bind ?_
      rintro ⟨segments, inner⟩ hsegments
      have hrun := segmentsRun_of_scan budget hsegments
      have hquotes := Cursor.reaches_run (Cursor.fits_of_part hrun.closes).2
      refine (scanItems_failsIn budget _ _ ?_).bind fun _ _ => .ok _
      exact hinside.reaches (hrun.reaches.trans hquotes)

theorem scanSegments_failsIn : ∀ (budget : Nat) (kind : StringKind) {opened : Nat},
    ScanProblem.unterminatedString.Begins (text.drop opened) → ∀ pending c : Cursor,
    c.Within text → FailsIn text (scanSegments budget kind opened pending c)
  | 0, _, _, _, _, _, _ => by
    rw [scanSegments]
    exact .exhausted
  | budget + 1, kind, opened, hopened, pending, c, hc => by
    rw [scanSegments]
    split
    · exact .failed hopened
    · exact .ok _
    · rename_i length hread
      have hfits := Cursor.fits_of_part hread
      exact scanSegments_failsIn budget kind hopened _ _ (hc.reaches (.advance c hfits.2))
    · rename_i hread
      have hfits := Cursor.fits_of_part hread
      refine (scanHole_failsIn budget _ c hc hfits).bind ?_
      rintro ⟨hole, after⟩ hhole
      have hafter := hc.reaches ((holeRun_of_scan budget hhole).reaches hfits.2)
      exact (scanSegments_failsIn budget kind hopened _ _ hafter).bind fun _ _ => .ok _

theorem scanHole_failsIn : ∀ (budget braces : Nat) (c : Cursor), c.Within text →
    1 ≤ braces ∧ braces ≤ runLength '\x7b' c.ahead → FailsIn text (scanHole budget braces c)
  | 0, _, _, _, _ => by
    rw [scanHole]
    exact .exhausted
  | budget + 1, braces, c, hc, hbraces => by
    have hinside := hc.reaches (Cursor.reaches_run hbraces.2)
    rw [scanHole_succ]
    refine (scanItems_failsIn budget _ _ hinside).bind ?_
    rintro ⟨items, c₁⟩ hitems
    have hc₁ := hinside.reaches (itemsRun_of_scan budget hitems).reaches
    refine FailsIn.bind ?_ fun _ _ => closeHole_failsIn hc hbraces
    dsimp only
    unfold scanAlignment
    split
    · refine (scanItems_failsIn budget _ _ ?_).bind fun _ _ => .ok _
      exact hc₁.reaches (.advance _ (one_le_of_head? ‹_›))
    · exact .ok _

end

end

theorem SourceTree.failure_pointsInto {text : List Char} {failure : ScanFailure}
    (h : SourceTree.ofChars text = .error failure) : failure.PointsInto text := by
  have hfails := scanItems_failsIn (scanBudget text.length) [] _ (.atStart text)
  unfold SourceTree.ofChars scanText at h
  cases hscan : scanItems (scanBudget text.length) [] (Cursor.atStart text) with
  | ok r =>
    rw [hscan] at h
    cases h
  | error halt =>
    cases halt with
    | exhausted =>
      rw [hscan] at h
      cases h
    | failed other =>
      rw [hscan] at h
      cases h
      exact hfails failure hscan

theorem ScanFailure.PointsInto.offset_lt {text : List Char} {failure : ScanFailure}
    (h : failure.PointsInto text) : failure.offset < text.length := by
  have hne := ScanProblem.Begins.ne_nil h
  rwa [ne_eq, List.drop_eq_nil_iff, Nat.not_le] at hne

end InterpolationLint
