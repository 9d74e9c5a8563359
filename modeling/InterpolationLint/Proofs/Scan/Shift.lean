import InterpolationLint.Proofs.Scan.Budget
import InterpolationLint.Proofs.Tree.Shift

/-!
# The scanner does not count

Where a text begins and how many strings were opened before it makes no difference to the scanner
but in the offsets and ids that it gives: at a shifted place its answer is the shifted answer, and
a failure is the same one, shifted.
-/

namespace InterpolationLint

def Cursor.shift (n k : Nat) (c : Cursor) : Cursor :=
  { c with offset := c.offset + n, opened := c.opened + k }

def ScanFailure.shift (n : Nat) (failure : ScanFailure) : ScanFailure :=
  { failure with offset := failure.offset + n }

def Halt.shift (n : Nat) : Halt → Halt
  | .exhausted => .exhausted
  | .failed failure => .failed (failure.shift n)

/-- An answer of the scanner as it is at a shifted place, where `f` shifts what was found. -/
def shifted {α : Type} (n k : Nat) (f : α → α) : Except Halt (α × Cursor) → Except Halt (α × Cursor)
  | .ok (a, c) => .ok (f a, c.shift n k)
  | .error halt => .error (halt.shift n)

section
variable (n k : Nat)

theorem shifted_bind {α β : Type} {f : α → α} {g : β → β} {x x' : Except Halt (α × Cursor)}
    {next next' : α × Cursor → Except Halt (β × Cursor)} (hx : x' = shifted n k f x)
    (hnext : ∀ a c, next' (f a, c.shift n k) = shifted n k g (next (a, c))) :
    x' >>= next' = shifted n k g (x >>= next) := by
  subst hx
  cases x with
  | error halt => rfl
  | ok r => exact hnext r.1 r.2

/-! ## Places -/

namespace Cursor

@[simp] theorem shift_offset (c : Cursor) : (c.shift n k).offset = c.offset + n := rfl
@[simp] theorem shift_ahead (c : Cursor) : (c.shift n k).ahead = c.ahead := rfl
@[simp] theorem shift_lineStart (c : Cursor) : (c.shift n k).lineStart = c.lineStart := rfl
@[simp] theorem shift_opened (c : Cursor) : (c.shift n k).opened = c.opened + k := rfl

theorem shift_advance (c : Cursor) (m : Nat) :
    (c.shift n k).advance m = (c.advance m).shift n k := by
  simp [Cursor.shift, Cursor.advance, Nat.add_right_comm]

theorem shift_enter (c : Cursor) (m : Nat) : (c.shift n k).enter m = (c.enter m).shift n k := by
  simp [Cursor.shift, Cursor.enter, Cursor.advance, Nat.add_right_comm]

theorem shift_span (c : Cursor) (m : Nat) : (c.shift n k).span m = (c.span m).shift n := by
  simp [Cursor.shift, Cursor.span, TextRange.shift, Nat.add_right_comm]

theorem shift_textBetween (pending c : Cursor) :
    textBetween (pending.shift n k) (c.shift n k) = Segment.shiftAll n k (textBetween pending c) := by
  have htext : (pending.shift n k).textUpTo (c.shift n k) = pending.textUpTo c := by
    simp only [Cursor.textUpTo, shift_offset, shift_ahead, Nat.add_sub_add_right]
  unfold textBetween
  rw [htext]
  simp only [shift_offset, Nat.add_lt_add_iff_right]
  split
  · simp [Segment.shiftAll, Segment.shift, TextRange.shift]
  · simp [Segment.shiftAll]

theorem shift_formatClause (c : Cursor) : formatClause (c.shift n k) =
    ((formatClause c).1.map (·.shift n), (formatClause c).2.shift n k) := by
  unfold formatClause
  rw [shift_ahead]
  split
  · simp only [shift_advance, shift_span, shift_ahead, Option.map_some]
  · rfl

end Cursor

theorem shift_juxtapose (items : List Expr) (offset : Nat) :
    juxtapose (Expr.shiftAll n k items) (offset + n) = (juxtapose items offset).shift n k := by
  match items with
  | [] => rfl
  | [item] => rfl
  | first :: second :: rest =>
    have hlast : ((second :: rest).map (Expr.shift n k)).getLast (by simp) =
        ((second :: rest).getLast (by simp)).shift n k := List.getLast_map _
    simp only [Expr.shiftAll_eq_map, List.map_cons] at hlast ⊢
    simp only [juxtapose, hlast, Expr.shift, Expr.range_shift, TextRange.shift,
      Expr.shiftAll_eq_map, List.map_cons]

theorem Segment.shiftAll_append (xs ys : List Segment) :
    Segment.shiftAll n k (xs ++ ys) = Segment.shiftAll n k xs ++ Segment.shiftAll n k ys := by
  simp only [Segment.shiftAll_eq_map, List.map_append]

theorem closeHole_shift (braces start : Nat) (expression : Expr) (alignment : Option Expr)
    (format : Option TextRange) (c : Cursor) :
    closeHole braces (start + n) (expression.shift n k) (alignment.map (Expr.shift n k))
        (format.map (·.shift n)) (c.shift n k) =
      shifted n k (Segment.shift n k) (closeHole braces start expression alignment format c) := by
  unfold closeHole
  rw [Cursor.shift_ahead]
  split
  · rfl
  · rw [Cursor.shift_advance, Cursor.shift_offset, Nat.add_right_comm]
    cases alignment <;> rfl

/-! ## Answers -/

mutual

theorem scanItems_shift : ∀ (budget : Nat) (stops : List Char) (c : Cursor),
    scanItems budget stops (c.shift n k) =
      shifted n k (Expr.shiftAll n k) (scanItems budget stops c)
  | 0, _, _ => by
    simp only [scanItems]
    rfl
  | budget + 1, stops, c => by
    rw [scanItems, scanItems, Cursor.shift_lineStart, Cursor.shift_ahead]
    split
    · rfl
    · rfl
    · rw [Cursor.shift_advance]
      exact scanItems_shift budget _ _
    · rw [Cursor.shift_advance, Cursor.shift_span]
      exact shifted_bind n k (scanItems_shift budget _ _) fun _ _ => rfl
    · rw [Cursor.shift_advance, Cursor.shift_span]
      exact shifted_bind n k (scanItems_shift budget _ _) fun _ _ => rfl
    · rw [Cursor.shift_advance]
      refine shifted_bind n k (scanItems_shift budget _ _) fun children inner => ?_
      dsimp only
      rw [Cursor.shift_ahead]
      split
      · rw [Cursor.shift_advance]
        refine shifted_bind n k (scanItems_shift budget _ _) fun rest final => ?_
        simp only [pure, Except.pure, shifted, Expr.shiftAll, Expr.shift, TextRange.shift,
          Cursor.shift_offset, Nat.add_right_comm]
      · rfl
    · rw [Cursor.shift_enter]
      refine shifted_bind n k (scanSegments_shift budget _ _ _ _) fun segments inner => ?_
      dsimp only
      rw [Cursor.shift_advance]
      refine shifted_bind n k (scanItems_shift budget _ _) fun rest final => ?_
      simp only [pure, Except.pure, shifted, Expr.shiftAll, Expr.shift, TextRange.shift,
        Cursor.shift_offset, Cursor.shift_opened, Nat.add_right_comm]

theorem scanSegments_shift : ∀ (budget : Nat) (kind : StringKind) (opened : Nat)
    (pending c : Cursor),
    scanSegments budget kind (opened + n) (pending.shift n k) (c.shift n k) =
      shifted n k (Segment.shiftAll n k) (scanSegments budget kind opened pending c)
  | 0, _, _, _, _ => by
    simp only [scanSegments]
    rfl
  | budget + 1, kind, opened, pending, c => by
    rw [scanSegments, scanSegments, Cursor.shift_ahead]
    split
    · rfl
    · rw [Cursor.shift_textBetween]
      rfl
    · rw [Cursor.shift_advance]
      exact scanSegments_shift budget _ _ _ _
    · refine shifted_bind n k (scanHole_shift budget _ _) fun hole after => ?_
      refine shifted_bind n k (scanSegments_shift budget _ _ _ _) fun rest final => ?_
      dsimp only
      rw [Cursor.shift_textBetween]
      simp only [pure, Except.pure, shifted, Segment.shiftAll_append, Segment.shiftAll]

theorem scanHole_shift : ∀ (budget braces : Nat) (c : Cursor),
    scanHole budget braces (c.shift n k) =
      shifted n k (Segment.shift n k) (scanHole budget braces c)
  | 0, _, _ => by
    simp only [scanHole]
    rfl
  | budget + 1, braces, c => by
    -- in the form of three steps one after the other, each of which gives the shifted answer
    rw [scanHole_succ, scanHole_succ, Cursor.shift_advance]
    refine shifted_bind n k (scanItems_shift budget _ _) fun items c₁ => ?_
    refine shifted_bind (f := Option.map (Expr.shift n k)) n k ?_ fun alignment c₂ => ?_
    · unfold scanAlignment
      dsimp only
      rw [Cursor.shift_ahead]
      split
      · rw [Cursor.shift_advance]
        refine shifted_bind n k (scanItems_shift budget _ _) fun items final => ?_
        dsimp only
        rw [Cursor.shift_offset, shift_juxtapose]
        rfl
      · rfl
    · dsimp only
      rw [Cursor.shift_formatClause, Cursor.shift_offset, Cursor.shift_offset, shift_juxtapose]
      exact closeHole_shift n k ..

end

theorem Cursor.scan_shift (stops : List Char) (c : Cursor) :
    (c.shift n k).scan stops = shifted n k (Expr.shiftAll n k) (c.scan stops) :=
  scanItems_shift n k _ stops c

end

end InterpolationLint
