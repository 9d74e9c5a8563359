import InterpolationLint.Proofs.Outcome.Sort
import Mathlib.Data.Prod.Basic

/-!
# The algebra of outcomes

Outcomes merge like lists, and what is counted in them adds up. Sorting is fixed by what it compares:
each list stands in the order of its keys, with the entries of one key as they were. These laws hold
of any outcomes, whether or not a run has made them.
-/

namespace InterpolationLint

/-! ## Keys -/

/-- The entries of `l` in the order of their keys, and those of one key in the order of `l`. -/
structure SortedByKey {α κ : Type} [DecidableEq κ] (key : α → κ) (before : κ → κ → Prop)
    (l sorted : List α) : Prop where
  perm : sorted.Perm l
  ordered : sorted.Pairwise fun a b => before (key a) (key b) ∨ key a = key b
  stable : ∀ k, sorted.filter (key · = k) = l.filter (key · = k)

section
variable {α κ : Type} [DecidableEq κ] {cmp : α → α → Ordering} [Std.TransCmp cmp]

theorem sortedByKey_sortBy {key : α → κ} {before : κ → κ → Prop}
    (h : ∀ a b, (cmp a b).isLE = true ↔ before (key a) (key b) ∨ key a = key b) (l : List α) :
    SortedByKey key before l (sortBy cmp l) where
  perm := sortBy_perm cmp l
  ordered := (sortBy_pairwise l).imp fun hle => (h _ _).mp hle
  stable := by
    intro k
    rw [filter_sortBy]
    -- entries of one key are in order as they stand
    apply List.mergeSort_of_pairwise
    apply List.pairwise_of_forall_mem_list
    intro a ha b hb
    have hkey : key a = k := by simpa using (List.mem_filter.mp ha).2
    have hkey' : key b = k := by simpa using (List.mem_filter.mp hb).2
    exact (h a b).mpr (.inr (hkey.trans hkey'.symm))

theorem sortBy_sortBy (l : List α) : sortBy cmp (sortBy cmp l) = sortBy cmp l :=
  List.mergeSort_of_pairwise (sortBy_pairwise l)

end

/-- Names compare by their code points, from the front. -/
def NameBefore (a b : String) : Prop := List.Lex (fun c d => c.toNat < d.toNat) a.toList b.toList

theorem lt_iff_nameBefore {a b : String} : a < b ↔ NameBefore a b := Iff.rfl

def Violation.key (v : Violation) : String × Nat × Nat × Rule := (v.file, v.line, v.column, v.rule)

def Violation.KeyBefore : String × Nat × Nat × Rule → String × Nat × Nat × Rule → Prop :=
  Prod.Lex NameBefore <| Prod.Lex (· < ·) <| Prod.Lex (· < ·) fun r s => r.rank < s.rank

theorem Rule.rank_le_iff (r s : Rule) : r.rank ≤ s.rank ↔ r.rank < s.rank ∨ r = s := by
  cases r <;> cases s <;> decide

namespace Outcome

theorem isLE_violationOrder_iff_key (v w : Violation) : (violationOrder v w).isLE = true ↔
    Violation.KeyBefore v.key w.key ∨ v.key = w.key := by
  rw [isLE_violationOrder_iff, Rule.rank_le_iff]
  simp only [Violation.KeyBefore, Violation.key, Prod.lex_iff, Prod.mk.injEq, lt_iff_nameBefore,
    and_or_left, or_assoc]

/-! ## Merging -/

theorem merge_assoc (a b c : Outcome) : (a.merge b).merge c = a.merge (b.merge c) := by
  simp [merge, Nat.add_assoc]

theorem merge_empty (a : Outcome) : a.merge empty = a := by simp [merge, empty]

theorem empty_merge (a : Outcome) : empty.merge a = a := by simp [merge, empty]

theorem hasAtLeast_merge (a b : Outcome) (level : Severity) :
    (a.merge b).hasAtLeast level = (a.hasAtLeast level || b.hasAtLeast level) := by
  simp [hasAtLeast, merge]

theorem count_merge (a b : Outcome) (rule : Rule) :
    (a.merge b).count rule = a.count rule + b.count rule := by
  simp [count, merge]

theorem lookup_counts (a : Outcome) (rule : Rule) :
    a.counts.lookup rule = if a.count rule = 0 then none else some (a.count rule) := by
  have hne : (Rule.dollarBrace == Rule.unnecessaryInterpolation) = false := rfl
  have hne' : (Rule.unnecessaryInterpolation == Rule.dollarBrace) = false := rfl
  unfold counts Rule.all
  by_cases hdollar : a.count .dollarBrace = 0 <;>
    by_cases hmarker : a.count .unnecessaryInterpolation = 0 <;>
      cases rule <;> simp [hdollar, hmarker, List.lookup_cons, hne, hne']

theorem lookup_counts_merge (a b : Outcome) (rule : Rule) : (a.merge b).counts.lookup rule =
    Option.merge (· + ·) (a.counts.lookup rule) (b.counts.lookup rule) := by
  simp only [lookup_counts, count_merge]
  by_cases ha : a.count rule = 0 <;> by_cases hb : b.count rule = 0 <;> simp [ha, hb, Option.merge]

/-! ## Sorting -/

theorem sort_sort (a : Outcome) : a.sort.sort = a.sort := by
  simp only [sort_eq, sortBy_sortBy]

theorem violations_sort_perm (a : Outcome) : a.sort.violations.Perm a.violations :=
  sortBy_perm violationOrder a.violations

theorem hasAtLeast_sort (a : Outcome) (level : Severity) :
    a.sort.hasAtLeast level = a.hasAtLeast level :=
  a.violations_sort_perm.any_eq

theorem counts_sort (a : Outcome) : a.sort.counts = a.counts := by
  have hcount : a.sort.count = a.count := by
    funext rule
    exact a.violations_sort_perm.countP_eq _
  simp [counts, hcount]

theorem sortedByKey_sort (a : Outcome) :
    SortedByKey Violation.key Violation.KeyBefore a.violations a.sort.violations ∧
    SortedByKey (·.violation.file) NameBefore a.suppressed a.sort.suppressed ∧
    SortedByKey (·.file) NameBefore a.failures a.sort.failures := by
  refine ⟨sortedByKey_sortBy isLE_violationOrder_iff_key _, ?_, ?_⟩
  · exact sortedByKey_sortBy (fun s t => @isLE_suppressedOrder_iff s t) a.suppressed
  · exact sortedByKey_sortBy (fun f g => @isLE_failureOrder_iff f g) a.failures

/-- The laws of outcomes. Merging is associative, and the empty outcome makes no difference. Sorting
puts the entries of each list in the order of their keys, keeps the order of those with one key,
makes no difference the second time and may be done before merging too. The severity that is reached
and the numbers of violations are the same when sorted, and come together when merged. -/
theorem merge_sort_laws (a b c : Outcome) :
    ((a.merge b).merge c = a.merge (b.merge c) ∧ a.merge empty = a ∧ empty.merge a = a) ∧
    (SortedByKey Violation.key Violation.KeyBefore a.violations a.sort.violations ∧
      SortedByKey (·.violation.file) NameBefore a.suppressed a.sort.suppressed ∧
      SortedByKey (·.file) NameBefore a.failures a.sort.failures ∧
      a.sort.scanned = a.scanned) ∧
    (a.sort.sort = a.sort ∧ (a.sort.merge b.sort).sort = (a.merge b).sort) ∧
    (∀ level, a.sort.hasAtLeast level = a.hasAtLeast level ∧
      (a.merge b).hasAtLeast level = (a.hasAtLeast level || b.hasAtLeast level)) ∧
    a.sort.counts = a.counts ∧
    ∀ rule, (a.merge b).counts.lookup rule =
      Option.merge (· + ·) (a.counts.lookup rule) (b.counts.lookup rule) := by
  obtain ⟨hviolations, hsuppressed, hfailures⟩ := a.sortedByKey_sort
  refine ⟨⟨merge_assoc a b c, merge_empty a, empty_merge a⟩,
    ⟨hviolations, hsuppressed, hfailures, rfl⟩, ⟨sort_sort a, sort_merge_sort a b⟩, ?_,
    counts_sort a, lookup_counts_merge a b⟩
  intro level
  exact ⟨hasAtLeast_sort a level, hasAtLeast_merge a b level⟩

end Outcome

end InterpolationLint
