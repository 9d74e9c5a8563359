import InterpolationLint.Proofs.Diagnostic.Failure
import InterpolationLint.Proofs.Diagnostic.Selection

/-!
# Each finding once

Diagnostics compare by their start and rule, and repeat each other only if they also end at the same
place. So equal ones need not be neighbours after sorting, and different ones can tie. Sorting is
stable and the first of equal ones stays, hence it makes no difference which of the two is done
first, and findings that come again change nothing.
-/

namespace InterpolationLint

namespace Diagnostic

/-! ## The first of equal ones -/

theorem dropRepeats_sublist : ∀ (ds : List Diagnostic) (seen : List (Rule × Location)),
    (dropRepeats seen ds).Sublist ds
  | [], _ => .refl []
  | d :: ds, seen => by
    rw [dropRepeats]
    split
    · exact (dropRepeats_sublist ds seen).cons d
    · exact (dropRepeats_sublist ds _).cons_cons d

theorem not_seen_of_mem_dropRepeats {d : Diagnostic} {ds : List Diagnostic}
    {seen : List (Rule × Location)} (h : d ∈ dropRepeats seen ds) : d.subject ∉ seen :=
  (mem_dropRepeats.mp (List.mem_map_of_mem h)).1

def firstIndex (ds : List Diagnostic) (d : Diagnostic) : Nat := (ds.map subject).idxOf d.subject

theorem firstIndex_cons (d e : Diagnostic) (ds : List Diagnostic) :
    firstIndex (d :: ds) e = if e.subject = d.subject then 0 else firstIndex ds e + 1 := by
  unfold firstIndex
  rw [List.map_cons, List.idxOf_cons]
  by_cases h : e.subject = d.subject
  · simp [h]
  · rw [beq_false_of_ne (Ne.symm h), if_neg h]
    rfl

theorem dropRepeats_firstIndex : ∀ (ds : List Diagnostic) (seen : List (Rule × Location)),
    (dropRepeats seen ds).Pairwise fun d next => firstIndex ds d < firstIndex ds next
  | [], _ => .nil
  | d :: ds, seen => by
    -- behind the head the indices are one more than in the tail
    have hlift : ∀ seen', d.subject ∈ seen' → (dropRepeats seen' ds).Pairwise
        fun x next => firstIndex (d :: ds) x < firstIndex (d :: ds) next := by
      intro seen' hd
      refine (dropRepeats_firstIndex ds seen').imp_of_mem ?_
      intro x next hx hnext hlt
      have hxd : x.subject ≠ d.subject := fun h => not_seen_of_mem_dropRepeats hx (h ▸ hd)
      have hnextd : next.subject ≠ d.subject := fun h => not_seen_of_mem_dropRepeats hnext (h ▸ hd)
      rw [firstIndex_cons, firstIndex_cons, if_neg hxd, if_neg hnextd]
      exact Nat.succ_lt_succ hlt
    rw [dropRepeats]
    split
    · exact hlift seen (by simpa using ‹seen.contains d.subject = true›)
    · refine List.pairwise_cons.mpr ⟨?_, hlift _ List.mem_cons_self⟩
      intro next hnext
      have hne : next.subject ≠ d.subject := fun h =>
        not_seen_of_mem_dropRepeats hnext (h ▸ List.mem_cons_self)
      rw [firstIndex_cons, firstIndex_cons, if_pos rfl, if_neg hne]
      exact Nat.succ_pos _

theorem nodup_dropRepeats (ds : List Diagnostic) : ((dropRepeats [] ds).map subject).Nodup := by
  rw [List.Nodup, List.pairwise_map]
  refine (dropRepeats_firstIndex ds []).imp ?_
  intro d next hlt heq
  unfold firstIndex at hlt
  rw [heq] at hlt
  exact Nat.lt_irrefl _ hlt

/-! ## Sorting and leaving out repeats -/

theorem order_congr {a d e : Diagnostic} (h : d.subject = e.subject) : order a d = order a e := by
  have hrule : d.rule = e.rule := congrArg Prod.fst h
  have hlocation : d.location = e.location := congrArg Prod.snd h
  simp [order, compareLex, compareOn, hrule, hlocation]

theorem tiesWith_dropRepeats (a : Diagnostic) (ds : List Diagnostic) :
    tiesWith order a (dropRepeats [] ds) = dropRepeats [] (tiesWith order a ds) := by
  symm
  apply dropRepeats_filter
  intro d e h
  rw [order_congr h]

/-- Repeats may be left out before sorting as well as after it. -/
theorem arranged_eq_sortBy (ds : List Diagnostic) :
    arranged ds = sortBy order (dropRepeats [] ds) := by
  have harranged : arranged ds = dropRepeats [] (sortBy order ds) := rfl
  rw [harranged]
  refine eq_of_tiesWith ?_ (sortBy_pairwise _) ?_
  · exact (sortBy_pairwise ds).sublist (dropRepeats_sublist _ [])
  · intro a
    rw [tiesWith_dropRepeats, tiesWith_sortBy, tiesWith_sortBy, tiesWith_dropRepeats]

theorem order_eq_eq_iff {d e : Diagnostic} :
    order d e = .eq ↔ d.location.start = e.location.start ∧ d.rule = e.rule := by
  have hrank : d.rule.rank = e.rule.rank ↔ d.rule = e.rule := by
    cases d.rule <;> cases e.rule <;> decide
  simp only [order, compareLex, compareOn, Ordering.then_eq_eq, Nat.compare_eq_eq, hrank,
    Position.eq_iff, and_assoc]

theorem arranged_firstIndex (ds : List Diagnostic) : (arranged ds).Pairwise fun d next =>
    order d next = .eq → firstIndex ds d < firstIndex ds next := by
  apply List.pairwise_iff_forall_sublist.mpr
  intro d next hsublist htie
  have hties : [d, next].Sublist (tiesWith order d (dropRepeats [] ds)) := by
    rw [← tiesWith_sortBy, ← arranged_eq_sortBy]
    have hself : tiesWith order d [d, next] = [d, next] := by
      rw [tiesWith_cons_of_eq Std.ReflCmp.compare_self, tiesWith_cons_of_eq htie]
      rfl
    rw [← hself]
    exact hsublist.filter _
  have hkept := hties.trans List.filter_sublist
  exact (List.pairwise_cons.mp ((dropRepeats_firstIndex ds []).sublist hkept)).1 next
    List.mem_cons_self

/-! ## Findings that come again -/

theorem dropRepeats_eq_nil {ds : List Diagnostic} {seen : List (Rule × Location)}
    (h : ∀ d ∈ ds, d.subject ∈ seen) : dropRepeats seen ds = [] := by
  apply List.eq_nil_iff_forall_not_mem.mpr
  intro d hd
  exact not_seen_of_mem_dropRepeats hd (h d ((dropRepeats_sublist ds seen).subset hd))

theorem arranged_again {before again : List Diagnostic} (h : again ⊆ before)
    (after : List Diagnostic) : arranged (before ++ (again ++ after)) = arranged (before ++ after) := by
  have hagain : ∀ d ∈ again, d.subject ∈ [] ++ before.map subject :=
    fun d hd => List.mem_map_of_mem (h hd)
  rw [arranged_eq_sortBy, arranged_eq_sortBy, dropRepeats_append, dropRepeats_append again,
    dropRepeats_eq_nil hagain, dropRepeats_append before after]
  congr 2
  apply dropRepeats_congr
  intro d _
  simp only [List.nil_append, List.mem_append, or_iff_left_iff_imp]
  intro hd
  obtain ⟨e, he, heq⟩ := List.mem_map.mp hd
  exact heq ▸ List.mem_map_of_mem (h he)

theorem exists_mapM_of_subset {ε α β : Type} {f : α → Except ε β} {xs ys : List α} {ds : List β}
    (h : xs.mapM f = .ok ds) (hsubset : ys ⊆ xs) : ∃ es, ys.mapM f = .ok es ∧ es ⊆ ds := by
  induction ys with
  | nil => exact ⟨[], rfl, List.nil_subset ds⟩
  | cons y ys ih =>
    obtain ⟨hy, hys⟩ := List.cons_subset.mp hsubset
    obtain ⟨d, hd, heq⟩ := exists_of_mapM_eq_ok h y hy
    obtain ⟨es, hes, hsub⟩ := ih hys
    refine ⟨d :: es, ?_, List.cons_subset.mpr ⟨hd, hsub⟩⟩
    rw [List.mapM_cons, heq, hes]
    rfl

theorem ofFindings_again {before again : List Finding} (h : again ⊆ before) (lines : LineIndex)
    (after : List Finding) :
    ofFindings lines (before ++ (again ++ after)) = ofFindings lines (before ++ after) := by
  unfold ofFindings
  rw [List.mapM_append, List.mapM_append, List.mapM_append]
  cases hbefore : before.mapM (ofFinding lines) with
  | error e => rfl
  | ok ds =>
    obtain ⟨es, hagain, hsubset⟩ := exists_mapM_of_subset hbefore h
    rw [hagain]
    cases after.mapM (ofFinding lines) with
    | error e => rfl
    | ok rest => exact congrArg Except.ok (arranged_again hsubset rest)

/-! ## What becomes of findings -/

/-- How the diagnostics `ds` come from those that were found, in the order of the findings. They are
in reading order and describe their rules. Each rule and location that was found stands there once,
and those that tie stand in the order in which they were first found. Sorting is done before or
after repeats are left out, with the same result. -/
structure Arranges (found ds : List Diagnostic) : Prop where
  ordered : ds.Pairwise fun d next => d.location.start.Before next.location.start ∨
    d.location.start = next.location.start ∧ d.rule.rank ≤ next.rule.rank
  once : (ds.map subject).Nodup
  complete : ∀ rule location,
    (rule, location) ∈ ds.map subject ↔ (rule, location) ∈ found.map subject
  stable : ds.Pairwise fun d next => d.location.start = next.location.start → d.rule = next.rule →
    firstIndex found d < firstIndex found next
  described : ∀ d ∈ ds, d.message = d.rule.info.message ∧ d.severity = d.rule.info.severity
  sortedFirst : ds = dropRepeats [] (found.mergeSort inOrder)
  sortedLast : ds = (dropRepeats [] found).mergeSort inOrder

theorem arranges_arranged {found : List Diagnostic}
    (h : ∀ d ∈ found, d.message = d.rule.info.message ∧ d.severity = d.rule.info.severity) :
    Arranges found (arranged found) where
  ordered := by
    rw [arranged_eq_sortBy]
    refine (sortBy_pairwise _).imp ?_
    intro d next hle
    have hle := (inOrder_iff d next).mp hle
    rw [Position.eq_iff]
    unfold Position.Before
    omega
  once := nodup_dropRepeats _
  complete := fun _ _ => mem_arranged
  stable := by
    refine (arranged_firstIndex found).imp ?_
    intro d next hlt hstart hrule
    exact hlt (order_eq_eq_iff.mpr ⟨hstart, hrule⟩)
  described := by
    intro d hd
    exact h d (List.mem_mergeSort.mp ((dropRepeats_sublist _ []).subset hd))
  sortedFirst := rfl
  sortedLast := arranged_eq_sortBy found

theorem ofFindings_eq_error_iff {lines : LineIndex} {findings : List Finding}
    (h : ∀ finding ∈ findings, finding.range.IsOrdered) {e : AnalysisError} :
    ofFindings lines findings = .error e ↔
      ∃ finding, IsFirst (fun finding => lines.length < finding.range.stop) findings finding ∧
        e = .unresolved (lines.outside finding.range) := by
  constructor
  · intro herror
    by_cases hoff : ∃ finding ∈ findings, lines.length < finding.range.stop
    · obtain ⟨finding, hfirst⟩ := exists_isFirst hoff
      rw [ofFindings_of_isFirst h hfirst] at herror
      cases herror
      exact ⟨finding, hfirst, rfl⟩
    · rw [ofFindings_eq fun finding hmem => ⟨h finding hmem, Nat.le_of_not_lt fun hlt =>
        hoff ⟨finding, hmem, hlt⟩⟩] at herror
      cases herror
  · rintro ⟨finding, hfirst, rfl⟩
    exact ofFindings_of_isFirst h hfirst

/-- What becomes of findings with ordered ranges. The first one that leaves the text is an error.
Without such a one, the diagnostics are those of all findings, arranged. Findings that come again
make no difference to either. -/
theorem ofFindings_once (lines : LineIndex) {findings : List Finding}
    (h : ∀ finding ∈ findings, finding.range.IsOrdered) :
    (∀ e, ofFindings lines findings = .error e ↔
      ∃ finding, IsFirst (fun finding => lines.length < finding.range.stop) findings finding ∧
        e = .unresolved (lines.outside finding.range)) ∧
    ((∀ finding ∈ findings, finding.range.stop ≤ lines.length) →
      ∃ found ds, findings.mapM (ofFinding lines) = .ok found ∧
        ofFindings lines findings = .ok ds ∧ Arranges found ds) ∧
    ∀ before again after, findings = before ++ after → again ⊆ before →
      ofFindings lines (before ++ (again ++ after)) = ofFindings lines findings := by
  refine ⟨fun e => ofFindings_eq_error_iff h, ?_, ?_⟩
  · intro hinside
    have hfound := mapM_eq_map fun finding hmem =>
      ofFinding_eq (h finding hmem) (hinside finding hmem)
    refine ⟨_, _, hfound, ofFindings_eq fun finding hmem => ⟨h finding hmem, hinside finding hmem⟩,
      arranges_arranged ?_⟩
    intro d hd
    obtain ⟨finding, -, rfl⟩ := List.mem_map.mp hd
    exact ⟨rfl, rfl⟩
  · rintro before again after rfl hagain
    exact ofFindings_again hagain lines after

/-- Two ranges with one start, found three times, the longer one first; and then one behind the end
of the text. -/
theorem ofFindings_once_of_tie : ∃ ds,
    ofFindings (.ofText "a\n$\"$\"") [⟨.dollarBrace, 0, ⟨4, 6⟩⟩, ⟨.dollarBrace, 1, ⟨4, 5⟩⟩,
      ⟨.dollarBrace, 2, ⟨4, 6⟩⟩] = .ok ds ∧
    ds.map (·.location) = [⟨⟨2, 3⟩, ⟨2, 5⟩⟩, ⟨⟨2, 3⟩, ⟨2, 4⟩⟩] ∧
    ofFindings (.ofText "a\n$\"$\"") [⟨.dollarBrace, 0, ⟨4, 6⟩⟩, ⟨.dollarBrace, 1, ⟨5, 7⟩⟩] =
      .error (.unresolved ⟨7, 6⟩) := by
  obtain ⟨-, hok, -⟩ := @ofFindings_once (.ofText "a\n$\"$\"")
    [⟨.dollarBrace, 0, ⟨4, 6⟩⟩, ⟨.dollarBrace, 1, ⟨4, 5⟩⟩, ⟨.dollarBrace, 2, ⟨4, 6⟩⟩] (by decide)
  obtain ⟨found, ds, hfound, hds, harranges⟩ := hok (by decide)
  refine ⟨ds, hds, ?_, ?_⟩
  · have hsorted := harranges.sortedLast
    cases hfound
    rw [hsorted, List.mergeSort_of_pairwise]
    · decide
    · decide
  · obtain ⟨herror, -, -⟩ := @ofFindings_once (.ofText "a\n$\"$\"")
      [⟨.dollarBrace, 0, ⟨4, 6⟩⟩, ⟨.dollarBrace, 1, ⟨5, 7⟩⟩] (by decide)
    exact (herror _).mpr ⟨⟨.dollarBrace, 1, ⟨5, 7⟩⟩, ⟨by decide, [⟨.dollarBrace, 0, ⟨4, 6⟩⟩], [], rfl,
      by decide⟩, rfl⟩

end Diagnostic

end InterpolationLint
