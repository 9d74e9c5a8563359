import InterpolationLint.Proofs.Analysis
import InterpolationLint.Proofs.Diagnostic.Highlight
import InterpolationLint.Proofs.Text.LineEnds

/-!
# Strings and ends of lines

The strings of a text as they stand in it when it is written with returns: in the same order, with
the same parts at the places that their offsets move to. What the rules find in them moves along, and
has the same lines and columns.
-/

namespace InterpolationLint

def TextRange.stretched (text : List Char) (range : TextRange) : TextRange :=
  ⟨stretch text range.start, stretch text range.stop⟩

/-- A segment as it is with returns. What stands in a hole is left open. -/
inductive Segment.Returned (text : List Char) : Segment → Segment → Prop
  | text {written range} : Segment.Returned text (.text written range)
      (.text (String.ofList (withReturns written.toList)) (range.stretched text))
  | hole {range expression alignment format expression' alignment' format'} :
      Segment.Returned text (.hole range expression alignment format)
        (.hole (range.stretched text) expression' alignment' format')

structure InterpolatedString.Returned (text : List Char) (node node' : InterpolatedString) :
    Prop where
  id : node'.id = node.id
  kind : node'.kind = node.kind
  range : node'.range = node.range.stretched text
  content : node'.content = node.content.stretched text
  segments : List.Forall₂ (Segment.Returned text) node.segments node'.segments

/-! ## Lists side by side -/

section
variable {α β γ δ : Type} {R : α → β → Prop} {xs : List α} {ys : List β}

theorem flatMap_of_forall₂ {f : α → List γ} {g : β → List δ} {move : γ → δ}
    (h : List.Forall₂ R xs ys) (hfg : ∀ x ∈ xs, ∀ y, R x y → g y = (f x).map move) :
    ys.flatMap g = (xs.flatMap f).map move := by
  induction h with
  | nil => rfl
  | @cons x y xs ys hxy h ih =>
    have hrest := ih fun x hx => hfg x (List.mem_cons_of_mem _ hx)
    simp [hfg x List.mem_cons_self y hxy, hrest]

theorem filterMap_of_forall₂ {f : α → Option γ} {g : β → Option δ} {move : γ → δ}
    (h : List.Forall₂ R xs ys) (hfg : ∀ x ∈ xs, ∀ y, R x y → g y = (f x).map move) :
    ys.filterMap g = (xs.filterMap f).map move := by
  rw [List.filterMap_eq_flatMap_toList, List.filterMap_eq_flatMap_toList]
  apply flatMap_of_forall₂ h
  intro x hx y hxy
  rw [hfg x hx y hxy, Option.toList_map]

theorem neighbours_of_forall₂ (h : List.Forall₂ R xs ys) :
    List.Forall₂ (fun p q => R p.1 q.1 ∧ R p.2 q.2) (neighbours xs) (neighbours ys) := by
  induction h with
  | nil => exact .nil
  | cons hxy h ih =>
    cases h with
    | nil => exact .nil
    | cons hxy' h => exact .cons ⟨hxy, hxy'⟩ ih

end

/-! ## Findings -/

def Finding.stretched (text : List Char) (finding : Finding) : Finding :=
  { finding with range := finding.range.stretched text }

section
variable {text : List Char} {node node' : InterpolatedString}

theorem getLast?_withReturns (cs : List Char) : (withReturns cs).getLast? = cs.getLast? := by
  rcases List.eq_nil_or_concat' cs with rfl | ⟨cs, c, rfl⟩
  · rfl
  · by_cases hc : c = '\n' <;> simp [withReturns_append, withReturns, hc]

theorem stretch_succ {cs : List Char} {n : Nat} {c : Char} (hc : c ≠ '\n') (h : cs[n]? = some c) :
    stretch cs (n + 1) = stretch cs n + 1 := by
  rw [stretch_add, drop_eq_cons h, stretch_cons hc, stretch_zero]

theorem dollarBefore?_returned (h : node.ReadFrom text) {pair pair' : Segment × Segment}
    (hpair : pair.1 ∈ node.segments)
    (hreturned : Segment.Returned text pair.1 pair'.1 ∧ Segment.Returned text pair.2 pair'.2) :
    InterpolatedString.dollarBefore? node.id pair' =
      (InterpolatedString.dollarBefore? node.id pair).map (Finding.stretched text) := by
  obtain ⟨left, right⟩ := pair
  obtain ⟨left', right'⟩ := pair'
  obtain ⟨hleft, hright⟩ := hreturned
  cases hleft with
  | hole => rfl
  | @text written range =>
    cases hright with
    | text => rfl
    | hole =>
      by_cases hdollar : written.toList.getLast? = some '$'
      · -- the dollar sign is one character with returns too
        have hpos := Segment.start_lt_stop (h.tiles.of_mem _ hpair).2.1 hdollar
        have hstep := stretch_succ (by decide) (h.getElem?_dollar hpair hdollar)
        have hstop : range.stop - 1 + 1 = range.stop := by omega
        rw [hstop] at hstep
        simp [InterpolatedString.dollarBefore?, hdollar, getLast?_withReturns, Finding.stretched,
          TextRange.stretched, TextRange.single, hstep, hstop]
      · simp [InterpolatedString.dollarBefore?, hdollar, getLast?_withReturns]

theorem dollarBraces_returned (h : node.ReadFrom text) (hreturned : node.Returned text node') :
    node'.dollarBraces = node.dollarBraces.map (Finding.stretched text) := by
  unfold InterpolatedString.dollarBraces
  rw [hreturned.id]
  refine filterMap_of_forall₂ (neighbours_of_forall₂ hreturned.segments) ?_
  intro pair hpair pair' hpair'
  exact dollarBefore?_returned h (mem_of_mem_neighbours hpair).1 hpair'

theorem any_isHole_returned {segments segments' : List Segment}
    (h : List.Forall₂ (Segment.Returned text) segments segments') :
    segments'.any Segment.isHole = segments.any Segment.isHole := by
  induction h with
  | nil => rfl
  | cons hsegment h ih => cases hsegment <;> simp [Segment.isHole, ih]

theorem unnecessary?_returned (hreturned : node.Returned text node') :
    node'.unnecessary? = node.unnecessary?.map (Finding.stretched text) := by
  unfold InterpolatedString.unnecessary?
  rw [any_isHole_returned hreturned.segments]
  split
  · rfl
  · simp [Finding.stretched, InterpolatedString.opening, TextRange.stretched, hreturned.id,
      hreturned.range, hreturned.content]

theorem Rule.findings_returned {nodes nodes' : List InterpolatedString}
    (h : ∀ node ∈ nodes, node.ReadFrom text)
    (hreturned : List.Forall₂ (InterpolatedString.Returned text) nodes nodes') (rule : Rule) :
    rule.findings nodes' = (rule.findings nodes).map (Finding.stretched text) := by
  cases rule with
  | dollarBrace =>
    exact flatMap_of_forall₂ hreturned fun node hnode _ => dollarBraces_returned (h node hnode)
  | unnecessaryInterpolation =>
    exact filterMap_of_forall₂ hreturned fun _ _ _ => unnecessary?_returned

end

end InterpolationLint
