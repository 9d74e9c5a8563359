import InterpolationLint.Tree.Nodes
import InterpolationLint.Proofs.Tree.Tiling
import Mathlib.Data.List.Basic

/-!
# Trees moved along

A tree as it stands further down in a longer text: its ranges begin `n` characters later, and the
ids of its strings are greater by `k`.
-/

namespace InterpolationLint

def TextRange.shift (n : Nat) (r : TextRange) : TextRange := ⟨r.start + n, r.stop + n⟩

mutual

def Expr.shift (n k : Nat) : Expr → Expr
  | .interpolated ⟨id, kind, range, content, segments⟩ =>
    .interpolated ⟨id + k, kind, range.shift n, content.shift n, Segment.shiftAll n k segments⟩
  | .literal range => .literal (range.shift n)
  | .code range => .code (range.shift n)
  | .group delimiter range children =>
    .group delimiter (range.shift n) (Expr.shiftAll n k children)

def Expr.shiftAll (n k : Nat) : List Expr → List Expr
  | [] => []
  | expr :: rest => expr.shift n k :: Expr.shiftAll n k rest

def Segment.shift (n k : Nat) : Segment → Segment
  | .text text range => .text text (range.shift n)
  | .hole range expression none format =>
    .hole (range.shift n) (expression.shift n k) none (format.map (·.shift n))
  | .hole range expression (some alignment) format =>
    .hole (range.shift n) (expression.shift n k) (some (alignment.shift n k))
      (format.map (·.shift n))

def Segment.shiftAll (n k : Nat) : List Segment → List Segment
  | [] => []
  | segment :: rest => segment.shift n k :: Segment.shiftAll n k rest

end

def InterpolatedString.shift (n k : Nat) (node : InterpolatedString) : InterpolatedString where
  id := node.id + k
  kind := node.kind
  range := node.range.shift n
  content := node.content.shift n
  segments := node.segments.map (·.shift n k)

section
variable (n k : Nat)

theorem Expr.shiftAll_eq_map : ∀ items, Expr.shiftAll n k items = items.map (·.shift n k)
  | [] => by simp [Expr.shiftAll]
  | item :: rest => by simp [Expr.shiftAll, Expr.shiftAll_eq_map rest]

theorem Segment.shiftAll_eq_map : ∀ segments,
    Segment.shiftAll n k segments = segments.map (·.shift n k)
  | [] => by simp [Segment.shiftAll]
  | segment :: rest => by simp [Segment.shiftAll, Segment.shiftAll_eq_map rest]

theorem Expr.range_shift (expr : Expr) : (expr.shift n k).range = expr.range.shift n := by
  cases expr with
  | interpolated node =>
    cases node
    rfl
  | literal range => rfl
  | code range => rfl
  | group delimiter range children => rfl

/-! ## The strings of a moved tree -/

theorem Expr.nodesOf_append : ∀ xs ys : List Expr,
    Expr.nodesOf (xs ++ ys) = Expr.nodesOf xs ++ Expr.nodesOf ys
  | [], _ => rfl
  | x :: xs, ys => by
    simp only [List.cons_append, Expr.nodesOf, Expr.nodesOf_append xs ys, List.append_assoc]

mutual

theorem Expr.nodes_shift : ∀ expr : Expr,
    (expr.shift n k).nodes = expr.nodes.map (·.shift n k)
  | .interpolated ⟨id, kind, range, content, segments⟩ => by
    simp only [Expr.shift, Expr.nodes, List.map_cons, Segment.nodesOf_shiftAll segments]
    simp only [InterpolatedString.shift, Segment.shiftAll_eq_map]
  | .literal _ => rfl
  | .code _ => rfl
  | .group _ _ children => Expr.nodesOf_shiftAll children

theorem Expr.nodesOf_shiftAll : ∀ items : List Expr,
    Expr.nodesOf (Expr.shiftAll n k items) = (Expr.nodesOf items).map (·.shift n k)
  | [] => rfl
  | item :: rest => by
    simp only [Expr.shiftAll, Expr.nodesOf, List.map_append, Expr.nodes_shift item,
      Expr.nodesOf_shiftAll rest]

theorem Segment.nodesOf_shiftAll : ∀ segments : List Segment,
    Segment.nodesOf (Segment.shiftAll n k segments) =
      (Segment.nodesOf segments).map (·.shift n k)
  | [] => rfl
  | .text _ _ :: rest => by
    simp only [Segment.shiftAll, Segment.shift, Segment.nodesOf, Segment.nodesOf_shiftAll rest]
  | .hole _ expression none _ :: rest => by
    simp only [Segment.shiftAll, Segment.shift, Segment.nodesOf, List.map_append,
      Expr.nodes_shift expression, Segment.nodesOf_shiftAll rest]
  | .hole _ expression (some alignment) _ :: rest => by
    simp only [Segment.shiftAll, Segment.shift, Segment.nodesOf, List.map_append,
      Expr.nodes_shift expression, Expr.nodes_shift alignment, Segment.nodesOf_shiftAll rest]

end

/-! ## Findings in a moved string -/

def Finding.shift (finding : Finding) : Finding :=
  ⟨finding.rule, finding.node + k, finding.range.shift n⟩

theorem neighbours_map {α β : Type} (f : α → β) (xs : List α) :
    neighbours (xs.map f) = (neighbours xs).map (Prod.map f f) := by
  unfold neighbours
  rw [← List.map_tail, List.zip_map]

theorem dollarBefore?_shift {a b id : Nat} {segments : List Segment} {pair : Segment × Segment}
    (htiles : Segment.Tiles a segments b) (hmem : pair ∈ neighbours segments) :
    InterpolatedString.dollarBefore? (id + k) (Prod.map (·.shift n k) (·.shift n k) pair) =
      (InterpolatedString.dollarBefore? id pair).map (Finding.shift n k) := by
  obtain ⟨left, right⟩ := pair
  have htext := (htiles.of_mem left (mem_of_mem_neighbours hmem).1).2.1
  cases left with
  | hole range expression alignment format => cases alignment <;> rfl
  | text written range =>
    cases right with
    | text _ _ => rfl
    | hole range' expression alignment format =>
      have hfound : InterpolatedString.dollarBefore? (id + k)
          (.text written (range.shift n), (Segment.hole range' expression alignment format).shift n k) =
            if written.toList.getLast? = some '$' then
              some ⟨.dollarBrace, id + k, .single ((range.shift n).stop - 1)⟩
            else none := by
        cases alignment <;> rfl
      refine hfound.trans ?_
      rw [InterpolatedString.dollarBefore?]
      split
      · have hpos := Segment.start_lt_stop htext ‹_›
        have hstop : range.stop + n - 1 = range.stop - 1 + n := by omega
        simp only [Option.map_some, Finding.shift, TextRange.single, TextRange.shift, hstop,
          Nat.add_right_comm]
      · rfl

theorem dollarBraces_shift {node : InterpolatedString}
    (h : Segment.Tiles node.content.start node.segments node.content.stop) :
    (node.shift n k).dollarBraces = node.dollarBraces.map (Finding.shift n k) := by
  unfold InterpolatedString.dollarBraces
  rw [List.map_filterMap]
  simp only [InterpolatedString.shift, neighbours_map, List.filterMap_map]
  apply List.filterMap_congr
  intro pair hpair
  exact dollarBefore?_shift n k h hpair

theorem unnecessary?_shift (node : InterpolatedString) :
    (node.shift n k).unnecessary? = node.unnecessary?.map (Finding.shift n k) := by
  have hhole : ∀ segment : Segment, (segment.shift n k).isHole = segment.isHole := by
    intro segment
    cases segment with
    | text written range => rfl
    | hole range expression alignment format => cases alignment <;> rfl
  have hholes : (node.shift n k).segments.any Segment.isHole = node.segments.any Segment.isHole := by
    simp only [InterpolatedString.shift, List.any_map, Function.comp_def, hhole]
  unfold InterpolatedString.unnecessary?
  rw [hholes]
  split <;> rfl

theorem Rule.findings_append (xs ys : List InterpolatedString) (rule : Rule) :
    rule.findings (xs ++ ys) = rule.findings xs ++ rule.findings ys := by
  cases rule <;> simp [Rule.findings]

theorem Rule.findings_shift {nodes : List InterpolatedString}
    (h : ∀ node ∈ nodes, Segment.Tiles node.content.start node.segments node.content.stop)
    (rule : Rule) :
    rule.findings (nodes.map (·.shift n k)) = (rule.findings nodes).map (Finding.shift n k) := by
  cases rule with
  | dollarBrace =>
    simp only [Rule.findings, List.flatMap_map, List.map_flatMap]
    apply List.flatMap_congr
    intro node hnode
    exact dollarBraces_shift n k (h node hnode)
  | unnecessaryInterpolation =>
    simp only [Rule.findings, List.filterMap_map, List.map_filterMap]
    apply List.filterMap_congr
    intro node _
    exact unnecessary?_shift n k node

end

end InterpolationLint
