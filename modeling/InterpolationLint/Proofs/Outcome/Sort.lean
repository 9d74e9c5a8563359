import InterpolationLint.Outcome.Basic
import InterpolationLint.Text.Order

/-!
# Sorting outcomes

Sorting keeps the order of entries that compare equal. So a sorted list is fixed by the lists of
entries that tie with each other, and it makes no difference whether parts of a list are sorted
before the whole of it, or whether entries are picked before or after sorting.
-/

namespace InterpolationLint

/-! ## Ties -/

section
variable {α : Type} {cmp : α → α → Ordering}

def sortBy (cmp : α → α → Ordering) (l : List α) : List α := l.mergeSort fun a b => (cmp a b).isLE

theorem sortBy_perm (cmp : α → α → Ordering) (l : List α) : (sortBy cmp l).Perm l :=
  List.mergeSort_perm l _

def tiesWith (cmp : α → α → Ordering) (a : α) (l : List α) : List α := l.filter (cmp a · == .eq)

theorem mem_tiesWith {a b : α} {l : List α} : b ∈ tiesWith cmp a l ↔ b ∈ l ∧ cmp a b = .eq := by
  simp [tiesWith]

theorem tiesWith_append (a : α) (xs ys : List α) :
    tiesWith cmp a (xs ++ ys) = tiesWith cmp a xs ++ tiesWith cmp a ys := by
  simp [tiesWith]

theorem tiesWith_cons_of_eq {a b : α} (h : cmp a b = .eq) (l : List α) :
    tiesWith cmp a (b :: l) = b :: tiesWith cmp a l := by
  simp [tiesWith, h]

end

/-! ## Stability -/

section
variable {α : Type} {cmp : α → α → Ordering} [Std.TransCmp cmp]

theorem isLE_trans (a b c : α) (hab : (cmp a b).isLE = true) (hbc : (cmp b c).isLE = true) :
    (cmp a c).isLE = true := Std.TransCmp.isLE_trans hab hbc

theorem isLE_total (a b : α) : ((cmp a b).isLE || (cmp b a).isLE) = true := by
  have hswap : cmp b a = (cmp a b).swap := Std.OrientedCmp.eq_swap
  rw [hswap]
  cases cmp a b <;> rfl

theorem sortBy_pairwise (l : List α) : (sortBy cmp l).Pairwise fun a b => (cmp a b).isLE = true :=
  List.pairwise_mergeSort isLE_trans isLE_total l

theorem tiesWith_sortBy (a : α) (l : List α) :
    tiesWith cmp a (sortBy cmp l) = tiesWith cmp a l := by
  have hsorted : (tiesWith cmp a l).Pairwise fun b c => (cmp b c).isLE = true := by
    apply List.pairwise_iff_forall_sublist.mpr
    intro b c h
    have hb := (mem_tiesWith.mp (h.subset List.mem_cons_self)).2
    have hc := (mem_tiesWith.mp (h.subset (List.mem_cons_of_mem b List.mem_cons_self))).2
    simp [← Std.TransCmp.congr_left hb, hc]
  have hsublist : (tiesWith cmp a l).Sublist (sortBy cmp l) :=
    List.sublist_mergeSort isLE_trans isLE_total hsorted List.filter_sublist
  have hfilter := hsublist.filter (cmp a · == .eq)
  have hself : (tiesWith cmp a l).filter (cmp a · == .eq) = tiesWith cmp a l := by
    simp [tiesWith]
  rw [hself] at hfilter
  exact (hfilter.eq_of_length ((sortBy_perm cmp l).filter _).length_eq.symm).symm

/-- The first of a sorted list is at most what ties with something in the list. -/
theorem isLE_of_tiesWith {a b : α} {l l' : List α} (hl' : ∀ c ∈ l', (cmp b c).isLE = true)
    (h : tiesWith cmp a (a :: l) = tiesWith cmp a (b :: l')) : (cmp b a).isLE = true := by
  have hmem : a ∈ tiesWith cmp a (b :: l') := by
    rw [← h]
    exact mem_tiesWith.mpr ⟨List.mem_cons_self, Std.ReflCmp.compare_self⟩
  rcases List.mem_cons.mp (mem_tiesWith.mp hmem).1 with rfl | ha
  · have hself : cmp a a = .eq := Std.ReflCmp.compare_self
    simp [hself]
  · exact hl' a ha

theorem eq_of_tiesWith : ∀ {xs ys : List α}, (xs.Pairwise fun a b => (cmp a b).isLE = true) →
    (ys.Pairwise fun a b => (cmp a b).isLE = true) →
    (∀ a, tiesWith cmp a xs = tiesWith cmp a ys) → xs = ys
  | [], [], _, _, _ => rfl
  | [], y :: ys, _, _, h => by
    have hy := h y
    rw [tiesWith_cons_of_eq Std.ReflCmp.compare_self] at hy
    cases hy
  | x :: xs, [], _, _, h => by
    have hx := h x
    rw [tiesWith_cons_of_eq Std.ReflCmp.compare_self] at hx
    cases hx
  | x :: xs, y :: ys, hxs, hys, h => by
    obtain ⟨hx, hxs⟩ := List.pairwise_cons.mp hxs
    obtain ⟨hy, hys⟩ := List.pairwise_cons.mp hys
    -- the first entries tie, so they are the first of those that tie with them
    have hxy : cmp x y = .eq := by
      have hle := isLE_of_tiesWith hx (h y).symm
      have hge := isLE_of_tiesWith hy (h x)
      have hswap : cmp y x = (cmp x y).swap := Std.OrientedCmp.eq_swap
      rw [hswap] at hge
      cases hcmp : cmp x y <;> simp [hcmp] at hle hge
      rfl
    have hhead : x = y := by
      have hfirst := h x
      rw [tiesWith_cons_of_eq Std.ReflCmp.compare_self, tiesWith_cons_of_eq hxy] at hfirst
      exact (List.cons.inj hfirst).1
    have htail : xs = ys := by
      apply eq_of_tiesWith hxs hys
      intro a
      have ha := h a
      rw [hhead] at ha
      by_cases hay : cmp a y = .eq
      · rw [tiesWith_cons_of_eq hay, tiesWith_cons_of_eq hay] at ha
        exact (List.cons.inj ha).2
      · simpa [tiesWith, hay] using ha
    rw [hhead, htail]

theorem sortBy_congr {xs ys : List α} (h : ∀ a, tiesWith cmp a xs = tiesWith cmp a ys) :
    sortBy cmp xs = sortBy cmp ys := by
  apply eq_of_tiesWith (sortBy_pairwise xs) (sortBy_pairwise ys)
  intro a
  rw [tiesWith_sortBy, tiesWith_sortBy, h]

theorem sortBy_append_sortBy (xs ys : List α) :
    sortBy cmp (sortBy cmp xs ++ sortBy cmp ys) = sortBy cmp (xs ++ ys) := by
  apply sortBy_congr
  intro a
  simp only [tiesWith_append, tiesWith_sortBy]

theorem filter_sortBy (p : α → Bool) (l : List α) :
    (sortBy cmp l).filter p = sortBy cmp (l.filter p) := by
  have hcomm : ∀ (a : α) (xs : List α),
      tiesWith cmp a (xs.filter p) = (tiesWith cmp a xs).filter p := by
    intro a xs
    simp only [tiesWith, List.filter_filter, Bool.and_comm]
  apply eq_of_tiesWith ((sortBy_pairwise l).filter p) (sortBy_pairwise _)
  intro a
  rw [tiesWith_sortBy, hcomm, hcomm, tiesWith_sortBy]

end

/-! ## The orders of an outcome -/

namespace Outcome

instance : Std.TransCmp violationOrder := by
  unfold violationOrder
  infer_instance

instance : Std.TransCmp suppressedOrder := by
  unfold suppressedOrder
  infer_instance

instance : Std.TransCmp failureOrder := by
  unfold failureOrder
  infer_instance

theorem isLE_violationOrder_iff {v w : Violation} : (violationOrder v w).isLE = true ↔
    v.file < w.file ∨ v.file = w.file ∧ (v.line < w.line ∨ v.line = w.line ∧
      (v.column < w.column ∨ v.column = w.column ∧ v.rule.rank ≤ w.rule.rank)) := by
  simp only [violationOrder, compareLex, compareOn, Ordering.isLE_then_iff_or, Nat.isLE_compare,
    Std.compare_eq_lt, Std.compare_eq_iff_eq]

theorem isLE_suppressedOrder_iff {s t : SuppressedViolation} :
    (suppressedOrder s t).isLE = true ↔
      s.violation.file < t.violation.file ∨ s.violation.file = t.violation.file := by
  simp only [suppressedOrder, compareOn, Ordering.isLE_iff_eq_lt_or_eq_eq, Std.compare_eq_lt,
    Std.compare_eq_iff_eq]

theorem isLE_failureOrder_iff {f g : FileFailure} :
    (failureOrder f g).isLE = true ↔ f.file < g.file ∨ f.file = g.file := by
  simp only [failureOrder, compareOn, Ordering.isLE_iff_eq_lt_or_eq_eq, Std.compare_eq_lt,
    Std.compare_eq_iff_eq]

theorem sort_eq (outcome : Outcome) : outcome.sort =
    ⟨sortBy violationOrder outcome.violations, sortBy suppressedOrder outcome.suppressed,
      sortBy failureOrder outcome.failures, outcome.scanned⟩ := rfl

theorem sort_merge_sort (a b : Outcome) : (a.sort.merge b.sort).sort = (a.merge b).sort := by
  simp only [sort_eq, merge, sortBy_append_sortBy]

end Outcome

end InterpolationLint
