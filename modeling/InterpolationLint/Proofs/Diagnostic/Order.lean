import InterpolationLint.Diagnostic.Basic
import InterpolationLint.Proofs.Text.Location

/-!
# Reading order

Diagnostics are sorted in a stable way, so those of two parts of a text that are found together come
out as if each part had been sorted by itself. The same holds of leaving out repeats.
-/

namespace InterpolationLint

/-! ## Stable sorting -/

theorem dropWhile_append_cons {α : Type} {p : α → Bool} {a : α} (ha : p a = false)
    (xs ys : List α) : (xs ++ a :: ys).dropWhile p = xs.dropWhile p ++ a :: ys := by
  induction xs with
  | nil => simp [ha]
  | cons x xs ih =>
    simp only [List.cons_append, List.dropWhile_cons, ih]
    split <;> rfl

section
variable {α : Type} {le : α → α → Bool} (trans : ∀ a b c, le a b = true → le b c = true → le a c = true)
  (total : ∀ a b, (le a b || le b a) = true)
include trans total

/-- Sorting puts an element before the first one that it does not exceed. -/
theorem mergeSort_cons_eq (a : α) (l : List α) :
    (a :: l).mergeSort le =
      (l.mergeSort le).takeWhile (!le a ·) ++ a :: (l.mergeSort le).dropWhile (!le a ·) := by
  obtain ⟨l₁, l₂, hcons, hrest, hbefore⟩ := List.mergeSort_cons trans total a l
  have hsorted := List.pairwise_mergeSort trans total (a :: l)
  rw [hcons, List.pairwise_append] at hsorted
  have hafter : ∀ b ∈ l₂, le a b = true := (List.pairwise_cons.mp hsorted.2.1).1
  have hstop : l₂.takeWhile (!le a ·) = [] ∧ l₂.dropWhile (!le a ·) = l₂ := by
    cases l₂ with
    | nil => exact ⟨rfl, rfl⟩
    | cons b l₂ => simp [hafter b List.mem_cons_self]
  rw [hcons, hrest, List.takeWhile_append_of_pos hbefore, List.dropWhile_append_of_pos hbefore,
    hstop.1, hstop.2, List.append_nil]

/-- Where the elements with `p` come before all others, sorting may be done in two parts. -/
theorem mergeSort_split {p : α → Bool}
    (hp : ∀ a b, p a = true → p b = false → le a b = true ∧ le b a = false) (l : List α) :
    l.mergeSort le = (l.filter p).mergeSort le ++ (l.filter (!p ·)).mergeSort le := by
  induction l with
  | nil => simp
  | cons a l ih =>
    rw [mergeSort_cons_eq trans total, ih]
    by_cases ha : p a = true
    · -- the element finds its place in the first part, for the second begins too late
      have hlate : ∀ b ∈ (l.filter (!p ·)).mergeSort le, (!le a b) = false := by
        intro b hb
        rw [List.mem_mergeSort, List.mem_filter] at hb
        simp [(hp a b ha (by simpa using hb.2)).1]
      rw [List.filter_cons_of_pos ha, List.filter_cons_of_neg (by simp [ha]),
        mergeSort_cons_eq trans total]
      generalize (l.filter (!p ·)).mergeSort le = late at hlate
      cases late with
      | nil => simp
      | cons b late =>
        have hb := hlate b List.mem_cons_self
        rw [takeWhile_append_cons (p := (!le a ·)) hb, dropWhile_append_cons (p := (!le a ·)) hb,
          List.append_assoc, List.cons_append]
    · have hfirst : ∀ b ∈ (l.filter p).mergeSort le, (!le a b) = true := by
        intro b hb
        rw [List.mem_mergeSort, List.mem_filter] at hb
        simp [(hp b a hb.2 (by simpa using ha)).2]
      rw [List.filter_cons_of_neg ha, List.filter_cons_of_pos (by simp [ha]),
        mergeSort_cons_eq trans total, List.takeWhile_append_of_pos hfirst,
        List.dropWhile_append_of_pos hfirst, List.append_assoc]

end

def Location.below (n : Nat) (l : Location) : Location :=
  ⟨⟨l.start.line + n, l.start.column⟩, ⟨l.stop.line + n, l.stop.column⟩⟩

namespace Diagnostic

def below (n : Nat) (d : Diagnostic) : Diagnostic := { d with location := d.location.below n }

theorem inOrder_iff (a b : Diagnostic) : inOrder a b = true ↔
    a.location.start.line < b.location.start.line ∨
      a.location.start.line = b.location.start.line ∧
        (a.location.start.column < b.location.start.column ∨
          a.location.start.column = b.location.start.column ∧ a.rule.rank ≤ b.rule.rank) := by
  simp only [inOrder, order, compareLex, compareOn, Ordering.isLE_then_iff_or, Nat.isLE_compare,
    Nat.compare_eq_lt, Nat.compare_eq_eq]

theorem inOrder_trans (a b c : Diagnostic) (hab : inOrder a b = true) (hbc : inOrder b c = true) :
    inOrder a c = true := by
  rw [inOrder_iff] at *
  omega

theorem inOrder_total (a b : Diagnostic) : (inOrder a b || inOrder b a) = true := by
  rw [Bool.or_eq_true, inOrder_iff, inOrder_iff]
  omega

/-! ## Repeats -/

theorem dropRepeats_congr : ∀ {ds : List Diagnostic} {seen seen' : List (Rule × Location)},
    (∀ d ∈ ds, d.subject ∈ seen ↔ d.subject ∈ seen') → dropRepeats seen ds = dropRepeats seen' ds
  | [], _, _, _ => rfl
  | d :: ds, seen, seen', h => by
    have hd := h d List.mem_cons_self
    have hds : ∀ e ∈ ds, e.subject ∈ seen ↔ e.subject ∈ seen' :=
      fun e he => h e (List.mem_cons_of_mem d he)
    simp only [dropRepeats, List.contains_iff_mem, hd]
    split
    · exact dropRepeats_congr hds
    · congr 1
      apply dropRepeats_congr
      intro e he
      simp only [List.mem_cons, hds e he]

/-- The second part of a list is left without what the first part has. -/
theorem dropRepeats_append : ∀ (xs ys : List Diagnostic) (seen : List (Rule × Location)),
    dropRepeats seen (xs ++ ys) =
      dropRepeats seen xs ++ dropRepeats (seen ++ xs.map subject) ys
  | [], ys, seen => by simp [dropRepeats]
  | x :: xs, ys, seen => by
    simp only [List.cons_append, dropRepeats, List.map_cons]
    split
    · rw [dropRepeats_append xs ys]
      congr 1
      apply dropRepeats_congr
      intro d _
      have hx : x.subject ∈ seen := by simpa using ‹seen.contains x.subject = true›
      by_cases hd : d.subject = x.subject <;> simp [hd, hx]
    · rw [dropRepeats_append xs ys, List.cons_append]
      congr 2
      apply dropRepeats_congr
      intro d _
      simp only [List.mem_cons, List.mem_append]
      exact or_left_comm

theorem dropRepeats_map {f : Diagnostic → Diagnostic} {g : Rule × Location → Rule × Location}
    (hsubject : ∀ d, (f d).subject = g d.subject) (hinjective : ∀ x y, g x = g y → x = y) :
    ∀ (ds : List Diagnostic) (seen : List (Rule × Location)),
      dropRepeats (seen.map g) (ds.map f) = (dropRepeats seen ds).map f
  | [], _ => rfl
  | d :: ds, seen => by
    have hmem : g d.subject ∈ seen.map g ↔ d.subject ∈ seen := by
      constructor
      · intro h
        obtain ⟨x, hx, heq⟩ := List.mem_map.mp h
        rwa [← hinjective _ _ heq]
      · exact List.mem_map_of_mem
    simp only [List.map_cons, dropRepeats, List.contains_iff_mem, hsubject, hmem]
    split
    · exact dropRepeats_map hsubject hinjective ds seen
    · rw [List.map_cons, ← dropRepeats_map hsubject hinjective ds, List.map_cons]

/-! ## Two parts -/

def arranged (ds : List Diagnostic) : List Diagnostic := dropRepeats [] (ds.mergeSort inOrder)

theorem arranged_below (n : Nat) (ds : List Diagnostic) :
    arranged (ds.map (below n)) = (arranged ds).map (below n) := by
  have hsame : ∀ a ∈ ds, ∀ b ∈ ds, inOrder a b = inOrder (a.below n) (b.below n) := by
    intro a _ b _
    rw [Bool.eq_iff_iff, inOrder_iff, inOrder_iff]
    simp only [below, Location.below, Nat.add_lt_add_iff_right, Nat.add_right_cancel_iff]
  have hinjective : ∀ x y : Rule × Location,
      (x.1, x.2.below n) = (y.1, y.2.below n) → x = y := by
    rintro ⟨r, ⟨⟨l, c⟩, ⟨l', c'⟩⟩⟩ ⟨q, ⟨⟨m, d⟩, ⟨m', d'⟩⟩⟩ h
    simpa [Location.below] using h
  unfold arranged
  rw [← List.map_mergeSort hsame]
  exact dropRepeats_map (fun _ => rfl) hinjective _ []

/-- What starts up to line `n` comes before all that starts behind it. -/
theorem arranged_split (n : Nat) (ds : List Diagnostic) :
    arranged ds = arranged (ds.filter fun d => d.location.start.line ≤ n) ++
      arranged (ds.filter fun d => !decide (d.location.start.line ≤ n)) := by
  have hlines : ∀ a b : Diagnostic, decide (a.location.start.line ≤ n) = true →
      decide (b.location.start.line ≤ n) = false →
      inOrder a b = true ∧ inOrder b a = false := by
    intro a b ha hb
    rw [← Bool.not_eq_true, inOrder_iff, inOrder_iff]
    simp only [decide_eq_true_eq, decide_eq_false_iff_not] at ha hb
    omega
  unfold arranged
  rw [mergeSort_split inOrder_trans inOrder_total hlines, dropRepeats_append]
  congr 1
  apply dropRepeats_congr
  intro d hd
  simp only [List.nil_append, List.mem_map, List.not_mem_nil, iff_false]
  rintro ⟨x, hx, heq⟩
  rw [List.mem_mergeSort, List.mem_filter] at hx hd
  have hline : x.location = d.location := congrArg Prod.snd heq
  rw [hline] at hx
  simp_all

end Diagnostic

end InterpolationLint
