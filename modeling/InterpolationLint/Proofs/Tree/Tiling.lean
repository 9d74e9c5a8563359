import InterpolationLint.Diagnostic.Finding

/-!
# Tilings

`Segment.Tiles a segments b` says that the segments cover the offsets from `a` to `b` one after the
other, each text being as long as its range. A string whose segments tile its content has no fault,
and what the rules find in it lies inside it.
-/

namespace InterpolationLint

def Segment.Tiles : Nat → List Segment → Nat → Prop
  | a, [], b => a = b
  | a, segment :: rest, b =>
    segment.range.start = a ∧ segment.range.IsOrdered ∧ segment.textFault? = none ∧
      Tiles segment.range.stop rest b

namespace Segment.Tiles

theorem le {a b : Nat} : ∀ {segments : List Segment}, Segment.Tiles a segments b → a ≤ b
  | [], h => Nat.le_of_eq h
  | segment :: rest, ⟨hstart, hordered, _, h⟩ => by
    have := le h
    unfold TextRange.IsOrdered at hordered
    omega

theorem of_mem {a b : Nat} : ∀ {segments : List Segment}, Segment.Tiles a segments b →
    ∀ segment ∈ segments, segment.range.IsOrdered ∧ segment.textFault? = none ∧
      a ≤ segment.range.start ∧ segment.range.stop ≤ b
  | [], _, _, hmem => by cases hmem
  | first :: rest, ⟨hstart, hordered, htext, h⟩, segment, hmem => by
    have hle := h.le
    rcases List.mem_cons.mp hmem with rfl | hmem
    · exact ⟨hordered, htext, Nat.le_of_eq hstart.symm, hle⟩
    · obtain ⟨h₁, h₂, h₃, h₄⟩ := of_mem h segment hmem
      unfold TextRange.IsOrdered at hordered
      exact ⟨h₁, h₂, by omega, h₄⟩

theorem apart {a b : Nat} : ∀ {segments : List Segment}, Segment.Tiles a segments b →
    segments.Pairwise fun left right => left.range.stop ≤ right.range.start
  | [], _ => .nil
  | _ :: _, ⟨_, _, _, h⟩ =>
    List.pairwise_cons.mpr ⟨fun right hmem => (h.of_mem right hmem).2.2.1, apart h⟩

/-- No offset lies in two segments. -/
theorem index_unique {a b offset j k : Nat} {segments : List Segment} {left right : Segment}
    (h : Segment.Tiles a segments b) (hleft : segments[j]? = some left)
    (hright : segments[k]? = some right)
    (hj : left.range.start ≤ offset ∧ offset < left.range.stop)
    (hk : right.range.start ≤ offset ∧ offset < right.range.stop) : j = k := by
  have hapart := List.pairwise_iff_getElem.mp h.apart
  obtain ⟨hltj, rfl⟩ := List.getElem?_eq_some_iff.mp hleft
  obtain ⟨hltk, rfl⟩ := List.getElem?_eq_some_iff.mp hright
  rcases Nat.lt_trichotomy j k with hlt | heq | hgt
  · have := hapart j k hltj hltk hlt
    omega
  · exact heq
  · have := hapart k j hltk hltj hgt
    omega

theorem textFault {a b : Nat} {segments : List Segment} (h : Segment.Tiles a segments b) :
    segments.findSome? Segment.textFault? = none :=
  List.findSome?_eq_none_iff.mpr fun segment hmem => (h.of_mem segment hmem).2.1

theorem gapFault {a b : Nat} : ∀ {segments : List Segment}, Segment.Tiles a segments b →
    (neighbours segments).findSome? gapFault? = none
  | [], _ => rfl
  | [_], _ => rfl
  | first :: second :: rest, ⟨_, _, _, h⟩ => by
    have hmeet : second.range.start = first.range.stop := h.1
    have hrest : (neighbours (second :: rest)).findSome? gapFault? = none := gapFault h
    simp only [neighbours, List.tail_cons, List.zip_cons_cons, List.findSome?_cons] at hrest ⊢
    rw [show gapFault? (first, second) = none by simp [gapFault?, hmeet]]
    exact hrest

theorem meet {a b : Nat} {segments : List Segment} {pair : Segment × Segment}
    (h : Segment.Tiles a segments b) (hmem : pair ∈ neighbours segments) :
    pair.1.range.stop = pair.2.range.start := by
  have hnone := List.findSome?_eq_none_iff.mp h.gapFault pair hmem
  by_cases hmeet : pair.1.range.stop = pair.2.range.start
  · exact hmeet
  · simp [gapFault?, hmeet] at hnone

theorem getLast {a b : Nat} : ∀ {segments : List Segment} {last : Segment},
    Segment.Tiles a segments b → segments.getLast? = some last → last.range.stop = b
  | [], _, _, hlast => by cases hlast
  | [_], _, ⟨_, _, _, h⟩, hlast => by
    cases hlast
    exact h
  | _ :: second :: rest, _, ⟨_, _, _, h⟩, hlast => by
    rw [List.getLast?_cons_cons] at hlast
    exact getLast h hlast

end Segment.Tiles

theorem fault?_eq_none_of_tiles {node : InterpolatedString}
    (hinside : node.range.contains node.content = true)
    (h : Segment.Tiles node.content.start node.segments node.content.stop) :
    node.fault? = none := by
  unfold InterpolatedString.fault?
  rw [hinside]
  simp only [Bool.not_true, Bool.false_eq_true, ite_false]
  split
  · rename_i first last hfirst hlast
    obtain ⟨rest, hsegments⟩ := List.head?_eq_some_iff.mp hfirst
    have hstart : first.range.start = node.content.start := by
      rw [hsegments] at h
      exact h.1
    have hstop : last.range.stop = node.content.stop := h.getLast hlast
    rw [h.textFault, h.gapFault]
    simp [hstart, hstop]
  · rename_i hnone
    have hsegments : node.segments = [] := by
      cases hs : node.segments with
      | nil => rfl
      | cons first rest =>
        refine (hnone first ((first :: rest).getLast (by simp)) ?_ ?_).elim
        · rw [hs, List.head?_cons]
        · rw [hs, List.getLast?_eq_some_getLast]
    rw [hsegments] at h
    have hempty : node.content.start = node.content.stop := h
    simp [TextRange.isEmpty, hempty]

theorem gapFault?_eq_none_iff {pair : Segment × Segment} :
    gapFault? pair = none ↔ pair.1.range.stop = pair.2.range.start := by
  simp [gapFault?]

/-- Segments that meet each other tile what lies from the first to the last. -/
theorem Segment.tiles_of_meet : ∀ (first : Segment) (rest : List Segment),
    (∀ segment ∈ first :: rest, segment.range.IsOrdered ∧ segment.textFault? = none) →
    (∀ pair ∈ neighbours (first :: rest), pair.1.range.stop = pair.2.range.start) →
    Segment.Tiles first.range.start (first :: rest)
      ((first :: rest).getLast (List.cons_ne_nil first rest)).range.stop
  | first, [], hsound, _ => by
    obtain ⟨hordered, htext⟩ := hsound first List.mem_cons_self
    exact ⟨rfl, hordered, htext, rfl⟩
  | first, second :: rest, hsound, hmeet => by
    obtain ⟨hordered, htext⟩ := hsound first List.mem_cons_self
    have hrest := Segment.tiles_of_meet second rest
      (fun segment hmem => hsound segment (List.mem_cons_of_mem _ hmem))
      (fun pair hmem => hmeet pair (List.mem_cons_of_mem _ hmem))
    refine ⟨rfl, hordered, htext, ?_⟩
    rw [hmeet (first, second) List.mem_cons_self]
    exact hrest

/-- A string without a fault has its content inside it and tiled, if the ranges of its segments are
ordered. -/
theorem tiles_of_fault? {node : InterpolatedString}
    (hordered : ∀ segment ∈ node.segments, segment.range.IsOrdered) (h : node.fault? = none) :
    node.range.contains node.content = true ∧
      Segment.Tiles node.content.start node.segments node.content.stop := by
  unfold InterpolatedString.fault? at h
  by_cases hinside : node.range.contains node.content = true
  · refine ⟨hinside, ?_⟩
    simp only [hinside, Bool.not_true, Bool.false_eq_true, ite_false] at h
    cases hsegments : node.segments with
    | nil => simpa [hsegments, TextRange.isEmpty, Segment.Tiles] using h
    | cons first rest =>
      rw [hsegments] at h hordered
      simp only [List.head?_cons, List.getLast?_eq_some_getLast (List.cons_ne_nil first rest)] at h
      by_cases hstart : first.range.start = node.content.start
      · simp only [hstart, ne_eq, not_true, ite_false, Option.or_eq_none_iff,
          List.findSome?_eq_none_iff, gapFault?_eq_none_iff] at h
        obtain ⟨htext, hmeet, hlast⟩ := h
        have htiles := Segment.tiles_of_meet first rest
          (fun segment hmem => ⟨hordered segment hmem, htext segment hmem⟩) hmeet
        rw [← hstart]
        by_cases hstop : ((first :: rest).getLast (List.cons_ne_nil first rest)).range.stop =
            node.content.stop
        · rwa [hstop] at htiles
        · simp [hstop] at hlast
      · simp [hstart] at h
  · simp [hinside] at h

/-! ## Findings lie inside their string -/

theorem mem_of_mem_neighbours {α : Type} {xs : List α} {pair : α × α}
    (h : pair ∈ neighbours xs) : pair.1 ∈ xs ∧ pair.2 ∈ xs := by
  have hzip := List.of_mem_zip (show (pair.1, pair.2) ∈ xs.zip xs.tail from h)
  exact ⟨hzip.1, List.mem_of_mem_tail hzip.2⟩

/-- A text with a last character has a range with one. -/
theorem Segment.start_lt_stop {text : String} {range : TextRange} {c : Char}
    (htext : (Segment.text text range).textFault? = none) (hlast : text.toList.getLast? = some c) :
    range.start < range.stop := by
  have hlength : text.length = range.length := by
    simpa [Segment.textFault?] using htext
  have hpos : 1 ≤ text.length := by
    rw [← String.length_toList]
    cases hlist : text.toList with
    | nil =>
      rw [hlist] at hlast
      cases hlast
    | cons => simp
  unfold TextRange.length at hlength
  omega

/-- The finding is the last character of a text segment. -/
theorem dollarBefore?_range {a b id : Nat} {segments : List Segment} {pair : Segment × Segment}
    {finding : Finding} (htiles : Segment.Tiles a segments b) (hmem : pair ∈ neighbours segments)
    (h : InterpolatedString.dollarBefore? id pair = some finding) :
    a ≤ finding.range.start ∧ finding.range.IsOrdered ∧ finding.range.stop ≤ b := by
  unfold InterpolatedString.dollarBefore? at h
  split at h
  · rename_i text range _ _ _ _
    split at h
    · rename_i hdollar
      cases h
      obtain ⟨hordered, htext, hstart, hstop⟩ :=
        htiles.of_mem _ (mem_of_mem_neighbours hmem).1
      have hpos := Segment.start_lt_stop htext hdollar
      simp only [Segment.range, TextRange.single, TextRange.IsOrdered] at *
      omega
    · cases h
  · cases h

theorem dollarBraces_inside {node : InterpolatedString}
    (h : Segment.Tiles node.content.start node.segments node.content.stop) :
    ∀ finding ∈ node.dollarBraces, node.content.start ≤ finding.range.start ∧
      finding.range.IsOrdered ∧ finding.range.stop ≤ node.content.stop := by
  intro finding hfinding
  obtain ⟨pair, hpair, hsome⟩ := List.mem_filterMap.mp hfinding
  exact dollarBefore?_range h hpair hsome

theorem unnecessary?_range {node : InterpolatedString} {finding : Finding}
    (h : node.unnecessary? = some finding) : finding.range = node.opening := by
  unfold InterpolatedString.unnecessary? at h
  split at h
  · cases h
  · cases h
    rfl

end InterpolationLint
