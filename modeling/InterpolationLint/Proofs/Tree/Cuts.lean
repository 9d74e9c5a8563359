import InterpolationLint.Proofs.Tree.Tiling
import Mathlib.Logic.ExistsUnique

/-!
# Cut points

The check of a string looks at its first segment, at its last one, at neighbours and at each text.
All this comes to one thing: some offsets cut the content into the ranges of the segments, one after
the other. So each offset of the content lies in exactly one segment, and empty segments lie between
the others.
-/

namespace InterpolationLint

/-- Offsets `cut 0 ≤ cut 1 ≤ ...` from `a` to `b` that cut out the ranges of the segments. -/
structure Segment.CutBy (cut : Nat → Nat) (a : Nat) (segments : List Segment) (b : Nat) : Prop where
  first : cut 0 = a
  last : cut segments.length = b
  ordered : ∀ i < segments.length, cut i ≤ cut (i + 1)
  ranges : ∀ (i : Nat) (segment : Segment), segments[i]? = some segment →
    segment.range = ⟨cut i, cut (i + 1)⟩

/-- Segment number `i` holds the offset, and so is not empty. -/
def Segment.HeldBy (segments : List Segment) (offset i : Nat) : Prop :=
  ∃ segment : Segment, segments[i]? = some segment ∧ segment.range.start ≤ offset ∧
    offset < segment.range.stop

namespace Segment

/-! ## Cuts and tilings -/

theorem CutBy.tail {cut : Nat → Nat} {a b : Nat} {segment : Segment} {rest : List Segment}
    (h : CutBy cut a (segment :: rest) b) :
    CutBy (fun i => cut (i + 1)) segment.range.stop rest b where
  first := by rw [h.ranges 0 segment rfl]
  last := h.last
  ordered := fun i hi => h.ordered (i + 1) (by simpa using hi)
  ranges := fun i other hi => h.ranges (i + 1) other (by simpa using hi)

theorem CutBy.cons {cut : Nat → Nat} {b : Nat} {segment : Segment} {rest : List Segment}
    (hordered : segment.range.IsOrdered) (h : CutBy cut segment.range.stop rest b) :
    CutBy (fun i => if i = 0 then segment.range.start else cut (i - 1)) segment.range.start
      (segment :: rest) b where
  first := by simp
  last := by simp [h.last]
  ordered := by
    intro i hi
    cases i with
    | zero => simpa [h.first, TextRange.IsOrdered] using hordered
    | succ i => simpa using h.ordered i (by simpa using hi)
  ranges := by
    intro i other hi
    cases i with
    | zero =>
      obtain rfl : segment = other := by simpa using hi
      simp [h.first]
    | succ i => simpa using h.ranges i other (by simpa using hi)

theorem Tiles.exists_cutBy {a b : Nat} : ∀ {segments : List Segment}, Tiles a segments b →
    ∃ cut, CutBy cut a segments b
  | [], h => ⟨fun _ => a, rfl, h, by simp, by simp⟩
  | segment :: rest, ⟨hstart, hordered, _, h⟩ => by
    obtain ⟨cut, hcut⟩ := exists_cutBy h
    rw [← hstart]
    exact ⟨_, hcut.cons hordered⟩

theorem CutBy.tiles {b : Nat} : ∀ {cut : Nat → Nat} {a : Nat} {segments : List Segment},
    CutBy cut a segments b → (∀ segment ∈ segments, segment.textFault? = none) →
    Tiles a segments b
  | cut, a, [], h, _ => h.first.symm.trans h.last
  | cut, a, segment :: rest, h, htext => by
    have hrange := h.ranges 0 segment rfl
    refine ⟨?_, ?_, htext segment (by simp), ?_⟩
    · rw [hrange, h.first]
    · rw [hrange]
      exact h.ordered 0 (by simp)
    · apply h.tail.tiles
      intro other hother
      exact htext other (by simp [hother])

theorem tiles_iff_cutBy {a b : Nat} {segments : List Segment} :
    Tiles a segments b ↔
      (∀ segment ∈ segments, segment.textFault? = none) ∧ ∃ cut, CutBy cut a segments b := by
  constructor
  · intro h
    exact ⟨fun segment hmem => (h.of_mem segment hmem).2.1, h.exists_cutBy⟩
  · intro h
    obtain ⟨htext, cut, hcut⟩ := h
    exact hcut.tiles htext

theorem textFaultless_iff {segments : List Segment} :
    (∀ segment ∈ segments, segment.textFault? = none) ↔
      ∀ text range, Segment.text text range ∈ segments → text.length = range.length := by
  constructor
  · intro h text range hmem
    simpa [textFault?] using h _ hmem
  · intro h segment hmem
    cases segment with
    | text text range => simp [textFault?, h text range hmem]
    | hole => rfl

/-! ## Offsets -/

theorem Tiles.exists_heldBy {a b offset : Nat} : ∀ {segments : List Segment}, Tiles a segments b →
    a ≤ offset → offset < b → ∃ i, HeldBy segments offset i
  | [], h, hle, hlt => by
    have hab : a = b := h
    omega
  | segment :: rest, ⟨hstart, _, _, h⟩, hle, hlt => by
    by_cases hin : offset < segment.range.stop
    · exact ⟨0, segment, rfl, by omega, hin⟩
    · obtain ⟨i, other, hother, hheld⟩ := exists_heldBy h (by omega) hlt
      exact ⟨i + 1, other, by simpa using hother, hheld⟩

theorem Tiles.existsUnique_heldBy_iff {a b offset : Nat} {segments : List Segment}
    (h : Tiles a segments b) :
    (∃! i, HeldBy segments offset i) ↔ a ≤ offset ∧ offset < b := by
  constructor
  · intro hunique
    obtain ⟨i, ⟨segment, hi, hstart, hstop⟩, -⟩ := hunique
    have hinside := (h.of_mem segment (List.mem_of_getElem? hi)).2.2
    omega
  · intro hinside
    obtain ⟨i, hi⟩ := h.exists_heldBy hinside.1 hinside.2
    apply existsUnique_of_exists_of_unique ⟨i, hi⟩
    intro j k hj hk
    obtain ⟨left, hleft, hheld⟩ := hj
    obtain ⟨right, hright, hheld'⟩ := hk
    exact h.index_unique hleft hright hheld hheld'

end Segment

/-! ## The check -/

theorem InterpolatedString.fault?_eq_none_iff_tiles {node : InterpolatedString}
    (h : ∀ segment ∈ node.segments, segment.range.IsOrdered) :
    node.fault? = none ↔ node.range.contains node.content = true ∧
      Segment.Tiles node.content.start node.segments node.content.stop := by
  constructor
  · exact tiles_of_fault? h
  · intro htiles
    exact fault?_eq_none_of_tiles htiles.1 htiles.2

/-- A string whose segments have ordered ranges passes the check if and only if its content lies
inside it, each text is as long as its range, and some offsets cut the content into the ranges of
the segments. Then the offsets that lie in exactly one segment are those of the content. -/
theorem InterpolatedString.fault?_eq_none_iff_cut {node : InterpolatedString}
    (h : ∀ segment ∈ node.segments, segment.range.IsOrdered) :
    (node.fault? = none ↔
      (node.range.start ≤ node.content.start ∧ node.content.stop ≤ node.range.stop) ∧
      (∀ text range, Segment.text text range ∈ node.segments → text.length = range.length) ∧
      ∃ cut, Segment.CutBy cut node.content.start node.segments node.content.stop) ∧
    (node.fault? = none → ∀ offset,
      (∃! i, Segment.HeldBy node.segments offset i) ↔
        node.content.start ≤ offset ∧ offset < node.content.stop) := by
  have htiles := fault?_eq_none_iff_tiles h
  constructor
  · rw [htiles, Segment.tiles_iff_cutBy, Segment.textFaultless_iff]
    simp [TextRange.contains]
  · intro hnone offset
    exact (htiles.mp hnone).2.existsUnique_heldBy_iff

/-- A string with an empty text between a text and a hole. -/
theorem InterpolatedString.cut_around_empty_text : ∃ node : InterpolatedString,
    node.content = ⟨2, 6⟩ ∧ node.segments.map (·.range) = [⟨2, 3⟩, ⟨3, 3⟩, ⟨3, 6⟩] ∧
    node.fault? = none ∧ (∃ cut, Segment.CutBy cut 2 node.segments 6) ∧
    ∀ offset, (∃! i, Segment.HeldBy node.segments offset i) ↔ 2 ≤ offset ∧ offset < 6 := by
  obtain ⟨hcut, hheld⟩ := @fault?_eq_none_iff_cut ⟨0, .regular, ⟨0, 7⟩, ⟨2, 6⟩,
    [.text "a" ⟨2, 3⟩, .text "" ⟨3, 3⟩, .hole ⟨3, 6⟩ (.code ⟨4, 5⟩) none none]⟩ (by decide)
  refine ⟨_, ?_, ?_, ?_, (hcut.mp (by decide)).2.2, hheld (by decide)⟩ <;> decide

end InterpolationLint
