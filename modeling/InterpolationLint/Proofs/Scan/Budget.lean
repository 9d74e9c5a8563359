import InterpolationLint.Proofs.Scan.Derivation

/-!
# The budget is never spent

Between two lexemes the scanner takes at most two steps for each character it moves on, so twice the
number of characters ahead, and one more, is enough. With that many steps or more the answer does not
depend on the budget. `Cursor.scan` is that answer, and its equations are the scanner without a
budget.
-/

namespace InterpolationLint

/-! ## Enough steps -/

def Settled {α : Type} (r : Except Halt α) : Prop := r ≠ .error .exhausted

theorem settled_ok {α : Type} (a : α) : Settled (.ok a) := nofun

theorem Settled.bind {α β : Type} {x : Except Halt α} {f : α → Except Halt β} (hx : Settled x)
    (hf : ∀ a, x = .ok a → Settled (f a)) : Settled (x >>= f) := by
  cases x with
  | error halt =>
    intro h
    cases h
    exact hx rfl
  | ok a => exact hf a rfl

mutual

theorem scanItems_settled : ∀ (budget : Nat) (stops : List Char) (c : Cursor),
    2 * c.ahead.length + 1 ≤ budget → Settled (scanItems budget stops c)
  | 0, _, _, h => by omega
  | budget + 1, stops, c, h => by
    -- a lexeme moves on by a character at least, which pays for the step
    have hmoves : ∀ lexeme, Lexeme.read stops c.lineStart c.ahead = lexeme → 1 ≤ lexeme.length →
        2 * (c.advance lexeme.length).ahead.length + 1 ≤ budget := by
      intro lexeme hread hpos
      have := (Cursor.fits_of_read hread).length_le
      rw [Cursor.advance_ahead, List.length_drop]
      omega
    rw [scanItems]
    split
    · simp [Settled]
    · simp [Settled]
    · rename_i length hread
      exact scanItems_settled budget _ _ (hmoves _ hread (Cursor.fits_of_read hread).1)
    · rename_i length hread
      have hrest := hmoves _ hread (Cursor.fits_of_read hread).1
      exact (scanItems_settled budget _ _ hrest).bind fun _ _ => settled_ok _
    · rename_i length hread
      have hrest := hmoves _ hread (Cursor.fits_of_read hread).1
      exact (scanItems_settled budget _ _ hrest).bind fun _ _ => settled_ok _
    · rename_i delimiter bracket close hread
      have hinside := hmoves _ hread (Nat.le_refl 1)
      refine (scanItems_settled budget _ _ hinside).bind ?_
      rintro ⟨children, inner⟩ hchildren
      have hinner := (itemsRun_of_scan budget hchildren).reaches.ahead_length_le
      dsimp only
      split
      · have hrest : 2 * (inner.advance 1).ahead.length + 1 ≤ budget := by
          simp only [Cursor.advance_ahead, List.length_drop, Lexeme.length] at *
          omega
        exact (scanItems_settled budget _ _ hrest).bind fun _ _ => settled_ok _
      · simp [Settled]
    · rename_i kind marker hread
      have hmarker := marker_le (Cursor.fits_of_read hread)
      have hinside := hmoves _ hread (Nat.le_of_succ_le hmarker.1)
      refine (scanSegments_settled budget _ _ _ (c.enter marker) hinside).bind ?_
      rintro ⟨segments, inner⟩ hsegments
      have hinner := (segmentsRun_of_scan budget hsegments).reaches.ahead_length_le
      have hrest : 2 * (inner.advance kind.quotes).ahead.length + 1 ≤ budget := by
        simp only [Cursor.advance_ahead, Cursor.enter_ahead, List.length_drop, Lexeme.length] at *
        omega
      exact (scanItems_settled budget _ _ hrest).bind fun _ _ => settled_ok _

theorem scanSegments_settled : ∀ (budget : Nat) (kind : StringKind) (opened : Nat)
    (pending c : Cursor), 2 * c.ahead.length + 1 ≤ budget →
      Settled (scanSegments budget kind opened pending c)
  | 0, _, _, _, _, h => by omega
  | budget + 1, kind, opened, pending, c, h => by
    rw [scanSegments]
    split
    · simp [Settled]
    · simp [Settled]
    · have hfits := Cursor.fits_of_part ‹_›
      refine scanSegments_settled budget _ _ _ _ ?_
      rw [Cursor.advance_ahead, List.length_drop]
      have := hfits.1
      have := hfits.2
      omega
    · have hfits := Cursor.fits_of_part ‹_›
      refine (scanHole_settled budget _ _ hfits (by omega)).bind ?_
      rintro ⟨hole, after⟩ hhole
      have hafter := (holeRun_of_scan budget hhole).advances hfits
      exact (scanSegments_settled budget _ _ _ _ (by omega)).bind fun _ _ => settled_ok _

theorem scanHole_settled : ∀ (budget braces : Nat) (c : Cursor),
    1 ≤ braces ∧ braces ≤ runLength '\x7b' c.ahead → 2 * c.ahead.length ≤ budget →
      Settled (scanHole budget braces c)
  | 0, _, c, hbraces, h => by
    have := runLength_le '\x7b' c.ahead
    omega
  | budget + 1, braces, c, hbraces, h => by
    have hinside : 2 * (c.advance braces).ahead.length + 1 ≤ budget := by
      have := runLength_le '\x7b' c.ahead
      rw [Cursor.advance_ahead, List.length_drop]
      omega
    rw [scanHole_succ]
    refine (scanItems_settled budget _ _ hinside).bind ?_
    rintro ⟨items, c₁⟩ hitems
    have hc₁ := (itemsRun_of_scan budget hitems).reaches.ahead_length_le
    refine (scanAlignment_settled budget c₁ (by omega)).bind ?_
    intro a _
    unfold closeHole
    split <;> simp [Settled]

theorem scanAlignment_settled (budget : Nat) (c : Cursor) (h : 2 * c.ahead.length + 1 ≤ budget) :
    Settled (scanAlignment budget c) := by
  unfold scanAlignment
  split
  · have hrest : 2 * (c.advance 1).ahead.length + 1 ≤ budget := by
      rw [Cursor.advance_ahead, List.length_drop]
      omega
    exact (scanItems_settled budget _ _ hrest).bind fun _ _ => settled_ok _
  · exact settled_ok _

end

/-! ## More steps change no answer -/

/-- `r` is no answer yet, or `r'` is the same answer. -/
def KeptBy {α : Type} (r r' : Except Halt α) : Prop := Settled r → r' = r

theorem KeptBy.refl {α : Type} (r : Except Halt α) : KeptBy r r := fun _ => rfl

theorem KeptBy.bind {α β : Type} {x x' : Except Halt α} {f f' : α → Except Halt β}
    (hx : KeptBy x x') (hf : ∀ a, KeptBy (f a) (f' a)) : KeptBy (x >>= f) (x' >>= f') := by
  intro h
  cases x with
  | error halt =>
    have hsettled : Settled (.error halt : Except Halt α) := fun e => h (by cases e; rfl)
    rw [hx hsettled]
    rfl
  | ok a =>
    rw [hx (settled_ok a)]
    exact hf a h

mutual

theorem scanItems_kept : ∀ (budget : Nat) (stops : List Char) (c : Cursor),
    KeptBy (scanItems budget stops c) (scanItems (budget + 1) stops c)
  | 0, _, _ => by
    intro h
    exact absurd (by rw [scanItems]) h
  | budget + 1, stops, c => by
    rw [scanItems, scanItems]
    split
    · exact .refl _
    · exact .refl _
    · exact scanItems_kept budget _ _
    · exact (scanItems_kept budget _ _).bind fun _ => .refl _
    · exact (scanItems_kept budget _ _).bind fun _ => .refl _
    · refine (scanItems_kept budget _ _).bind fun r => ?_
      dsimp only
      split
      · exact (scanItems_kept budget _ _).bind fun _ => .refl _
      · exact .refl _
    · refine (scanSegments_kept budget _ _ _ _).bind fun r => ?_
      exact (scanItems_kept budget _ _).bind fun _ => .refl _

theorem scanSegments_kept : ∀ (budget : Nat) (kind : StringKind) (opened : Nat)
    (pending c : Cursor), KeptBy (scanSegments budget kind opened pending c)
      (scanSegments (budget + 1) kind opened pending c)
  | 0, _, _, _, _ => by
    intro h
    exact absurd (by rw [scanSegments]) h
  | budget + 1, kind, opened, pending, c => by
    rw [scanSegments, scanSegments]
    split
    · exact .refl _
    · exact .refl _
    · exact scanSegments_kept budget _ _ _ _
    · refine (scanHole_kept budget _ _).bind fun r => ?_
      exact (scanSegments_kept budget _ _ _ _).bind fun _ => .refl _

theorem scanHole_kept : ∀ (budget braces : Nat) (c : Cursor),
    KeptBy (scanHole budget braces c) (scanHole (budget + 1) braces c)
  | 0, _, _ => by
    intro h
    exact absurd (by rw [scanHole]) h
  | budget + 1, braces, c => by
    rw [scanHole_succ, scanHole_succ]
    refine (scanItems_kept budget _ _).bind fun r => ?_
    refine KeptBy.bind ?_ fun _ => .refl _
    unfold scanAlignment
    split
    · exact (scanItems_kept budget _ _).bind fun _ => .refl _
    · exact .refl _

end

theorem eq_of_kept {α : Type} {scan : Nat → Except Halt α}
    (hkept : ∀ budget, KeptBy (scan budget) (scan (budget + 1))) {enough budget : Nat}
    (hsettled : Settled (scan enough)) (hle : enough ≤ budget) : scan budget = scan enough := by
  induction hle with
  | refl => rfl
  | @step budget _ ih =>
    rw [← ih] at hsettled ⊢
    exact hkept budget hsettled

theorem scanItems_eq_of_le {budget budget' : Nat} {stops : List Char} {c : Cursor}
    (h : 2 * c.ahead.length + 1 ≤ budget) (hle : budget ≤ budget') :
    scanItems budget' stops c = scanItems budget stops c :=
  eq_of_kept (fun budget => scanItems_kept budget stops c) (scanItems_settled budget stops c h) hle

/-! ## The scanner without a budget -/

/-- The answer of the scanner at a place: the items up to the end of the text or an unnested
character in `stops`, and the place where they end. -/
def Cursor.scan (stops : List Char) (c : Cursor) : Except Halt (List Expr × Cursor) :=
  scanItems (scanBudget c.ahead.length) stops c

theorem scanItems_eq_scan {budget : Nat} {stops : List Char} {c : Cursor}
    (h : 2 * c.ahead.length + 1 ≤ budget) : scanItems budget stops c = c.scan stops :=
  scanItems_eq_of_le (Nat.le_refl _) h

theorem Cursor.scan_settled (stops : List Char) (c : Cursor) : Settled (c.scan stops) :=
  scanItems_settled _ stops c (Nat.le_refl _)

/-! ## Blanks -/

theorem not_blank_of_all {stops : List Char} (h : stops.all (!isBlank ·) = true) :
    ∀ s ∈ stops, isBlank s = false := by
  simpa using h

theorem Lexeme.read_blank {stops : List Char} {lineStart : Bool} {b : Char} {rest : List Char}
    (hb : isBlank b = true) (hstops : ∀ s ∈ stops, isBlank s = false) :
    Lexeme.read stops lineStart (b :: rest) =
      .trivia ((rest.takeWhile isBlank).length + 1) := by
  have hnot : stops.contains b = false := by
    rw [← Bool.not_eq_true, List.contains_iff_mem]
    intro hmem
    rw [hstops b hmem] at hb
    cases hb
  simp only [read, hnot, hb, Bool.false_and, Bool.false_eq_true, ite_false, ite_true,
    List.takeWhile_cons_of_pos, List.length_cons]

theorem Cursor.scan_of_trivia {stops : List Char} {c : Cursor} {n : Nat}
    (h : Lexeme.read stops c.lineStart c.ahead = .trivia n) :
    c.scan stops = (c.advance n).scan stops := by
  have hfits := fits_of_read h
  have hpos : 1 ≤ n := hfits.1
  have hle : n ≤ c.ahead.length := hfits.2
  rw [Cursor.scan, scanBudget, scanItems, h]
  refine scanItems_eq_scan ?_
  rw [advance_ahead, List.length_drop]
  omega

/-- Blanks are skipped as a run, which comes to skipping one at a time. -/
theorem Cursor.scan_of_blank {stops : List Char} {c : Cursor} {b : Char} {rest : List Char}
    (hstops : ∀ s ∈ stops, isBlank s = false) (hb : isBlank b = true) (h : c.ahead = b :: rest) :
    c.scan stops = (c.advance 1).scan stops := by
  have hrest : (c.advance 1).ahead = rest := by rw [advance_ahead, h, List.drop_succ_cons,
    List.drop_zero]
  rw [scan_of_trivia (h ▸ Lexeme.read_blank hb hstops)]
  cases rest with
  | nil => rfl
  | cons d rest =>
    by_cases hd : isBlank d = true
    · have hnext : Lexeme.read stops (c.advance 1).lineStart (c.advance 1).ahead =
          .trivia ((rest.takeWhile isBlank).length + 1) := hrest ▸ Lexeme.read_blank hd hstops
      rw [scan_of_trivia hnext, advance_advance, List.takeWhile_cons_of_pos hd, List.length_cons,
        Nat.add_comm 1]
    · rw [List.takeWhile_cons_of_neg hd, List.length_nil]

/-! ## Runs are answers of the scanner -/

theorem exists_budget {n budget : Nat} (h : n + 1 ≤ budget) :
    ∃ rest, budget = rest + 1 ∧ n ≤ rest :=
  ⟨budget - 1, by omega, by omega⟩

mutual

theorem ItemsRun.scanItems_eq {stops : List Char} {c final : Cursor} {items : List Expr}
    (h : ItemsRun stops c items final) {budget : Nat} (hb : 2 * c.ahead.length + 1 ≤ budget) :
    scanItems budget stops c = .ok (items, final) := by
  obtain ⟨budget, rfl, hb⟩ := exists_budget hb
  have hmoves : ∀ lexeme, Lexeme.read stops c.lineStart c.ahead = lexeme → 1 ≤ lexeme.length →
      2 * (c.advance lexeme.length).ahead.length + 1 ≤ budget := by
    intro lexeme hread hpos
    have := (Cursor.fits_of_read hread).length_le
    rw [Cursor.advance_ahead, List.length_drop]
    omega
  match h with
  | .stop hread => rw [scanItems, hread]
  | .trivia hread h =>
    rw [scanItems, hread]
    exact h.scanItems_eq (hmoves _ hread (Cursor.fits_of_read hread).1)
  | .literal hread h =>
    rw [scanItems, hread]
    dsimp only
    rw [h.scanItems_eq (hmoves _ hread (Cursor.fits_of_read hread).1)]
    rfl
  | .code hread h =>
    rw [scanItems, hread]
    dsimp only
    rw [h.scanItems_eq (hmoves _ hread (Cursor.fits_of_read hread).1)]
    rfl
  | @ItemsRun.group _ _ _ _ _ _ inner _ _ hread hchildren hclose h =>
    have hinside := hmoves _ hread (Nat.le_refl 1)
    have hinner := hchildren.reaches.ahead_length_le
    have hrest : 2 * (inner.advance 1).ahead.length + 1 ≤ budget := by
      simp only [Cursor.advance_ahead, List.length_drop, Lexeme.length] at *
      omega
    rw [scanItems, hread]
    dsimp only
    rw [hchildren.scanItems_eq hinside]
    simp only [bind, Except.bind, hclose, ite_true, h.scanItems_eq hrest]
    rfl
  | @ItemsRun.string _ _ kind marker _ inner _ _ hread hsegments h =>
    have hmarker := marker_le (Cursor.fits_of_read hread)
    have hinside := hmoves _ hread (Nat.le_of_succ_le hmarker.1)
    have hinner := hsegments.reaches.ahead_length_le
    have hrest : 2 * (inner.advance kind.quotes).ahead.length + 1 ≤ budget := by
      simp only [Cursor.advance_ahead, Cursor.enter_ahead, List.length_drop, Lexeme.length] at *
      omega
    rw [scanItems, hread]
    dsimp only
    rw [hsegments.scanSegments_eq c.offset hinside]
    simp only [bind, Except.bind, h.scanItems_eq hrest]
    rfl

theorem SegmentsRun.scanSegments_eq {kind : StringKind} {pending c final : Cursor}
    {segments : List Segment} (h : SegmentsRun kind pending c segments final) (opened : Nat)
    {budget : Nat} (hb : 2 * c.ahead.length + 1 ≤ budget) :
    scanSegments budget kind opened pending c = .ok (segments, final) := by
  obtain ⟨budget, rfl, hrest⟩ := exists_budget hb
  match h with
  | .close hread => rw [scanSegments, hread]
  | .text hread h =>
    rw [scanSegments, hread]
    have hfits := Cursor.fits_of_part hread
    refine h.scanSegments_eq opened ?_
    rw [Cursor.advance_ahead, List.length_drop]
    have := hfits.1
    have := hfits.2
    omega
  | .hole hread hhole h =>
    have hfits := Cursor.fits_of_part hread
    have := hhole.advances hfits
    rw [scanSegments, hread]
    dsimp only
    rw [hhole.scanHole_eq hfits hrest]
    have hnext := h.scanSegments_eq opened (Nat.le_trans (by omega) hrest)
    simp only [bind, Except.bind, hnext]
    rfl

theorem HoleRun.scanHole_eq {braces : Nat} {c final : Cursor} {hole : Segment}
    (h : HoleRun braces c hole final) (hbraces : 1 ≤ braces ∧ braces ≤ runLength '\x7b' c.ahead)
    {budget : Nat} (hb : 2 * c.ahead.length ≤ budget) :
    scanHole budget braces c = .ok (hole, final) := by
  have hrun := runLength_le '\x7b' c.ahead
  have hpos : (2 * c.ahead.length - 1) + 1 ≤ budget := by omega
  obtain ⟨budget, rfl, hrest⟩ := exists_budget hpos
  match h with
  | @HoleRun.closed _ _ _ c₁ _ _ _ _ hitems halignment hformat hclose =>
    have hinside : 2 * (c.advance braces).ahead.length + 1 ≤ budget := by
      rw [Cursor.advance_ahead, List.length_drop]
      omega
    have hc₁ := hitems.reaches.ahead_length_le
    rw [scanHole_succ, hitems.scanItems_eq hinside]
    simp only [bind, Except.bind, halignment.scanAlignment_eq (by omega : _ ≤ budget), hformat,
      closeHole, Nat.not_lt.mpr hclose, ite_false]

theorem AlignmentRun.scanAlignment_eq {c final : Cursor} {alignment : Option Expr}
    (h : AlignmentRun c alignment final) {budget : Nat} (hb : 2 * c.ahead.length + 1 ≤ budget) :
    scanAlignment budget c = .ok (alignment, final) := by
  unfold scanAlignment
  match h with
  | .absent hcomma => rw [if_neg hcomma]
  | .present hcomma h =>
    rw [if_pos hcomma, h.scanItems_eq]
    · rfl
    · rw [Cursor.advance_ahead, List.length_drop]
      omega

end

theorem ItemsRun.scan_eq {stops : List Char} {c final : Cursor} {items : List Expr}
    (h : ItemsRun stops c items final) : c.scan stops = .ok (items, final) :=
  h.scanItems_eq (Nat.le_refl _)

theorem Cursor.scan_eq_ok_iff {stops : List Char} {c final : Cursor} {items : List Expr} :
    c.scan stops = .ok (items, final) ↔ ItemsRun stops c items final :=
  ⟨itemsRun_of_scan _, ItemsRun.scan_eq⟩

/-! ## Item by item -/

def prepend (items : List Expr) :
    Except Halt (List Expr × Cursor) → Except Halt (List Expr × Cursor)
  | .ok (more, final) => .ok (items ++ more, final)
  | .error halt => .error halt

theorem prepend_nil (r : Except Halt (List Expr × Cursor)) : prepend [] r = r := by
  cases r <;> rfl

theorem prepend_prepend (xs ys : List Expr) (r : Except Halt (List Expr × Cursor)) :
    prepend xs (prepend ys r) = prepend (xs ++ ys) r := by
  cases r with
  | error halt => rfl
  | ok r => simp only [prepend, List.append_assoc]

section
variable {stops : List Char} {c : Cursor}

theorem Cursor.scan_of_stop (h : Lexeme.read stops c.lineStart c.ahead = .stop) :
    c.scan stops = .ok ([], c) :=
  (ItemsRun.stop h).scan_eq

theorem Cursor.scan_of_step {n : Nat} {item : Expr} (hn : 1 ≤ n ∧ n ≤ c.ahead.length)
    (h : ∀ budget, scanItems (budget + 1) stops c =
      scanItems budget stops (c.advance n) >>= fun r => .ok (item :: r.1, r.2)) :
    c.scan stops = prepend [item] ((c.advance n).scan stops) := by
  rw [Cursor.scan, scanBudget, h, scanItems_eq_scan]
  · cases (c.advance n).scan stops <;> rfl
  · rw [advance_ahead, List.length_drop]
    omega

theorem Cursor.scan_of_literal {n : Nat}
    (h : Lexeme.read stops c.lineStart c.ahead = .literal n) :
    c.scan stops = prepend [.literal (c.span n)] ((c.advance n).scan stops) := by
  apply scan_of_step (fits_of_read h)
  intro budget
  rw [scanItems, h]
  rfl

theorem Cursor.scan_of_code {n : Nat} (h : Lexeme.read stops c.lineStart c.ahead = .code n) :
    c.scan stops = prepend [.code (c.span n)] ((c.advance n).scan stops) := by
  apply scan_of_step (fits_of_read h)
  intro budget
  rw [scanItems, h]
  rfl

theorem Cursor.scan_of_group {delimiter : Delimiter} {bracket close : Char}
    {children : List Expr} {inner : Cursor}
    (h : Lexeme.read stops c.lineStart c.ahead = .opening delimiter bracket close)
    (hchildren : ItemsRun [close] (c.advance 1) children inner)
    (hclose : inner.ahead.head? = some close) :
    c.scan stops = prepend [.group delimiter ⟨c.offset, inner.offset + 1⟩ children]
      ((inner.advance 1).scan stops) := by
  have hlength : 1 ≤ c.ahead.length := (fits_of_read h).length_le
  have hinner := hchildren.reaches.ahead_length_le
  rw [advance_ahead, List.length_drop] at hinner
  rw [Cursor.scan, scanBudget, scanItems, h]
  dsimp only
  rw [hchildren.scanItems_eq]
  · simp only [bind, Except.bind, hclose, ite_true]
    rw [scanItems_eq_scan]
    · cases (inner.advance 1).scan stops <;> rfl
    · rw [advance_ahead, List.length_drop]
      omega
  · rw [advance_ahead, List.length_drop]
    omega

theorem Cursor.scan_of_string {kind : StringKind} {marker : Nat} {segments : List Segment}
    {inner : Cursor} (h : Lexeme.read stops c.lineStart c.ahead = .string kind marker)
    (hsegments : SegmentsRun kind (c.enter marker) (c.enter marker) segments inner) :
    c.scan stops = prepend [.interpolated ⟨c.opened, kind, ⟨c.offset, inner.offset + kind.quotes⟩,
      ⟨c.offset + marker, inner.offset⟩, segments⟩] ((inner.advance kind.quotes).scan stops) := by
  have hmarker := marker_le (fits_of_read h)
  have hinner := hsegments.reaches.ahead_length_le
  rw [enter_ahead, List.length_drop] at hinner
  rw [Cursor.scan, scanBudget, scanItems, h]
  dsimp only
  rw [hsegments.scanSegments_eq]
  · simp only [bind, Except.bind]
    rw [scanItems_eq_scan]
    · cases (inner.advance kind.quotes).scan stops <;> rfl
    · rw [advance_ahead, List.length_drop]
      omega
  · rw [enter_ahead, List.length_drop]
    omega

end

/-! ## Whole texts -/

theorem atStart_enough (text : List Char) :
    2 * (Cursor.atStart text).ahead.length + 1 ≤ scanBudget text.length := by
  have := (Cursor.Within.atStart text).offset_add
  unfold scanBudget
  omega

def itemsFound : Except Halt (List Expr × Cursor) → Except ScanFailure (List Expr)
  | .ok (items, _) => .ok items
  | .error .exhausted => .ok []
  | .error (.failed failure) => .error failure

theorem scanText_eq (text : List Char) :
    scanText text = itemsFound ((Cursor.atStart text).scan []) := by
  rw [scanText, scanItems_eq_scan (atStart_enough text)]
  rfl

theorem scanText_eq_ok_iff {text : List Char} {items : List Expr} :
    scanText text = .ok items ↔ ∃ final, ItemsRun [] (Cursor.atStart text) items final := by
  have hsettled := (Cursor.atStart text).scan_settled []
  constructor
  · intro h
    rw [scanText_eq] at h
    cases hscan : (Cursor.atStart text).scan [] with
    | ok r =>
      rw [hscan] at h
      cases h
      exact ⟨r.2, Cursor.scan_eq_ok_iff.mp hscan⟩
    | error halt =>
      cases halt with
      | exhausted => exact absurd hscan hsettled
      | failed failure =>
        rw [hscan] at h
        cases h
  · rintro ⟨final, hrun⟩
    rw [scanText_eq, hrun.scan_eq]
    rfl

end InterpolationLint
