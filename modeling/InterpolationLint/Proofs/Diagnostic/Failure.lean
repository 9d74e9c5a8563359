import InterpolationLint.Proofs.Analysis
import InterpolationLint.Proofs.Diagnostic.Distinct

/-!
# When an analysis fails

The first malformed string decides, whichever rules are selected. Without one the rules compute with
offsets that are there, and the first finding that leaves the text decides. In all other cases there
are diagnostics, for exactly what was found. This holds of any tree whose segments have ordered
ranges.
-/

namespace InterpolationLint

/-! ## The first of a list -/

/-- `x` is the first element of a list that has a property. -/
def IsFirst {α : Type} (p : α → Prop) (xs : List α) (x : α) : Prop :=
  p x ∧ ∃ before after, xs = before ++ x :: after ∧ ∀ y ∈ before, ¬ p y

theorem exists_isFirst {α : Type} {p : α → Prop} {xs : List α} (h : ∃ x ∈ xs, p x) :
    ∃ x, IsFirst p xs x := by
  induction xs with
  | nil => simp at h
  | cons x xs ih =>
    by_cases hx : p x
    · exact ⟨x, hx, [], xs, rfl, by simp⟩
    · have hrest : ∃ y ∈ xs, p y := by simpa [hx] using h
      obtain ⟨y, hy, before, after, rfl, hbefore⟩ := ih hrest
      refine ⟨y, hy, x :: before, after, rfl, ?_⟩
      exact List.forall_mem_cons.mpr ⟨hx, hbefore⟩

theorem IsFirst.mem {α : Type} {p : α → Prop} {xs : List α} {x : α} (h : IsFirst p xs x) :
    x ∈ xs := by
  obtain ⟨-, before, after, rfl, -⟩ := h
  simp

theorem mapM_of_isFirst {ε α β : Type} {f : α → Except ε β} {p : α → Prop} {xs : List α} {x : α}
    {e : ε} (h : IsFirst p xs x) (hx : f x = .error e) (hok : ∀ y ∈ xs, ¬ p y → ∃ b, f y = .ok b) :
    xs.mapM f = .error e := by
  obtain ⟨-, before, after, rfl, hbefore⟩ := h
  induction before with
  | nil => simp [List.mapM_cons, hx, bind, Except.bind]
  | cons y before ih =>
    obtain ⟨b, hb⟩ := hok y List.mem_cons_self (hbefore y List.mem_cons_self)
    have hrest := ih (fun z hz => hbefore z (List.mem_cons_of_mem _ hz))
      fun z hz => hok z (List.mem_cons_of_mem _ hz)
    rw [List.cons_append, List.mapM_cons, hb, hrest]
    rfl

/-! ## Malformed strings -/

theorem checkNodes_of_isFirst {nodes : List InterpolatedString} {node : InterpolatedString}
    {fault : Fault} (h : IsFirst (·.fault? ≠ none) nodes node) (hfault : node.fault? = some fault) :
    checkNodes nodes = .error (.malformed node.id fault) := by
  obtain ⟨-, before, after, rfl, hbefore⟩ := h
  induction before with
  | nil => simp [checkNodes, hfault]
  | cons other before ih =>
    have hother : other.fault? = none := by simpa using hbefore other List.mem_cons_self
    rw [List.cons_append, checkNodes, hother]
    exact ih fun n hn => hbefore n (List.mem_cons_of_mem _ hn)

/-! ## Findings outside the text -/

/-- The end of a range that lies outside a text: its start, if that does, or else its stop. -/
def LineIndex.outside (lines : LineIndex) (range : TextRange) : OutOfText :=
  ⟨if lines.length < range.start then range.start else range.stop, lines.length⟩

theorem LineIndex.locate_outside {lines : LineIndex} {range : TextRange}
    (h : lines.length < range.stop) : lines.locate range = .error (lines.outside range) := by
  unfold locate outside
  by_cases hstart : lines.length < range.start
  · simp [position, hstart]
  · rw [position_eq_place (Nat.le_of_not_lt hstart)]
    simp [position, hstart, h]

theorem Diagnostic.ofFindings_of_isFirst {lines : LineIndex} {findings : List Finding}
    {finding : Finding} (hordered : ∀ finding ∈ findings, finding.range.IsOrdered)
    (h : IsFirst (fun finding => lines.length < finding.range.stop) findings finding) :
    ofFindings lines findings = .error (.unresolved (lines.outside finding.range)) := by
  have herror : ofFinding lines finding = .error (.unresolved (lines.outside finding.range)) := by
    rw [ofFinding, LineIndex.locate_outside h.1]
  have hok : ∀ other ∈ findings, ¬ lines.length < other.range.stop →
      ∃ d, ofFinding lines other = .ok d := fun other hmem hstop =>
    ⟨_, ofFinding_eq (hordered other hmem) (Nat.le_of_not_lt hstop)⟩
  rw [ofFindings, mapM_of_isFirst h herror hok]
  rfl

/-! ## Repeats -/

theorem Diagnostic.mem_dropRepeats {s : Rule × Location} {ds : List Diagnostic}
    {seen : List (Rule × Location)} :
    s ∈ (dropRepeats seen ds).map subject ↔ s ∉ seen ∧ s ∈ ds.map subject := by
  induction ds generalizing seen with
  | nil => simp [dropRepeats]
  | cons d ds ih =>
    unfold dropRepeats
    by_cases hseen : d.subject ∈ seen
    · rw [if_pos (List.contains_iff_mem.mpr hseen), ih, List.map_cons, List.mem_cons]
      constructor
      · rintro ⟨hs, hmem⟩
        exact ⟨hs, .inr hmem⟩
      · rintro ⟨hs, rfl | hmem⟩
        · exact absurd hseen hs
        · exact ⟨hs, hmem⟩
    · rw [if_neg (by simpa using hseen), List.map_cons, List.map_cons, List.mem_cons, List.mem_cons,
        ih, List.mem_cons]
      by_cases heq : s = d.subject
      · simp [heq, hseen]
      · simp [heq]

theorem Diagnostic.mem_arranged {s : Rule × Location} {ds : List Diagnostic} :
    s ∈ (arranged ds).map subject ↔ s ∈ ds.map subject := by
  rw [arranged, mem_dropRepeats]
  simp

/-! ## Sound strings -/

/-- What is found in a string without a fault lies inside it. -/
theorem InterpolatedString.findings_contained {node : InterpolatedString}
    (hcontent : node.range.contains node.content = true)
    (htiles : Segment.Tiles node.content.start node.segments node.content.stop) :
    ∀ finding ∈ node.findings,
      finding.range.IsOrdered ∧ node.range.contains finding.range = true := by
  intro finding hfinding
  have hle := htiles.le
  simp only [TextRange.contains, Bool.and_eq_true, decide_eq_true_eq] at hcontent ⊢
  rcases List.mem_append.mp hfinding with hmem | hmem
  · obtain ⟨hstart, hordered, hstop⟩ := dollarBraces_inside htiles finding hmem
    exact ⟨hordered, by omega, by omega⟩
  · rw [unnecessary?_range (Option.mem_toList.mp hmem)]
    simp only [opening, TextRange.IsOrdered]
    omega

theorem SourceTree.findings_eq (tree : SourceTree) (rules : RuleSet) :
    tree.findings rules =
      (if rules.has .dollarBrace then tree.nodes.flatMap (·.dollarBraces) else []) ++
        if rules.has .unnecessaryInterpolation then tree.nodes.filterMap (·.unnecessary?)
        else [] := by
  unfold findings RuleSet.toList Rule.all
  by_cases hdollar : rules.has .dollarBrace = true <;>
    by_cases hmarker : rules.has .unnecessaryInterpolation = true <;>
      simp [hdollar, hmarker, Rule.findings]

/-- The arithmetic of the rules is exact in a string: its opening marker does not end before it
starts, a text found before a hole does not end at offset zero, and all that is found lies in the
string. -/
structure InterpolatedString.FoundInside (node : InterpolatedString) : Prop where
  marker : node.opening.IsOrdered
  dollar : ∀ pair ∈ neighbours node.segments, ∀ finding,
    dollarBefore? node.id pair = some finding →
      1 ≤ pair.1.range.stop ∧ finding.range = ⟨pair.1.range.stop - 1, pair.1.range.stop⟩
  inside : ∀ finding ∈ node.findings,
    finding.range.IsOrdered ∧ node.range.contains finding.range = true

theorem InterpolatedString.foundInside {node : InterpolatedString}
    (hcontent : node.range.contains node.content = true)
    (htiles : Segment.Tiles node.content.start node.segments node.content.stop) :
    node.FoundInside where
  marker := by
    simp only [TextRange.contains, Bool.and_eq_true, decide_eq_true_eq] at hcontent
    exact hcontent.1
  dollar := by
    intro pair hpair finding hfinding
    obtain ⟨written, range, hleft, -, hdollar, rfl⟩ := dollarBefore?_eq_some hfinding
    have htext := (htiles.of_mem _ (mem_of_mem_neighbours hpair).1).2.1
    rw [hleft] at htext ⊢
    have hpos := Segment.start_lt_stop htext hdollar
    have hstop : 1 ≤ range.stop := by omega
    refine ⟨hstop, ?_⟩
    simp only [TextRange.single, Segment.range, Nat.sub_add_cancel hstop]
  inside := findings_contained hcontent htiles

section
variable {tree : SourceTree}
  (hordered : ∀ node ∈ tree.nodes, ∀ segment ∈ node.segments, segment.range.IsOrdered)

theorem SourceTree.analyze_of_fault (rules : RuleSet)
    (h : ∃ node ∈ tree.nodes, node.fault? ≠ none) :
    ∃ node fault, IsFirst (·.fault? ≠ none) tree.nodes node ∧ node.fault? = some fault ∧
      tree.analyze rules = .error (.malformed node.id fault) := by
  obtain ⟨node, hfirst⟩ := exists_isFirst h
  obtain ⟨fault, hfault⟩ := Option.ne_none_iff_exists'.mp hfirst.1
  refine ⟨node, fault, hfirst, hfault, ?_⟩
  rw [analyze, checkNodes_of_isFirst hfirst hfault]
  rfl

variable (hfaultless : ∀ node ∈ tree.nodes, node.fault? = none)
include hordered hfaultless

theorem SourceTree.foundInside_of_faultless : ∀ node ∈ tree.nodes, node.FoundInside := by
  intro node hnode
  obtain ⟨hcontent, htiles⟩ := tiles_of_fault? (hordered node hnode) (hfaultless node hnode)
  exact InterpolatedString.foundInside hcontent htiles

theorem SourceTree.findings_ordered (rules : RuleSet) :
    ∀ finding ∈ tree.findings rules, finding.range.IsOrdered := by
  intro finding hfinding
  obtain ⟨node, hnode, hmem⟩ := mem_findings hfinding
  exact ((foundInside_of_faultless hordered hfaultless node hnode).inside finding hmem).1

theorem SourceTree.analyze_of_outside {rules : RuleSet} {finding : Finding}
    (h : IsFirst (fun finding => tree.lines.length < finding.range.stop) (tree.findings rules)
      finding) :
    tree.analyze rules = .error (.unresolved (tree.lines.outside finding.range)) := by
  rw [analyze, checkNodes_ok hfaultless]
  exact Diagnostic.ofFindings_of_isFirst (findings_ordered hordered hfaultless rules) h

theorem SourceTree.analyze_of_inside (rules : RuleSet)
    (h : ∀ finding ∈ tree.findings rules, finding.range.stop ≤ tree.lines.length) :
    ∃ diagnostics, tree.analyze rules = .ok diagnostics ∧ ∀ rule location,
      (∃ d ∈ diagnostics, d.rule = rule ∧ d.location = location) ↔
        ∃ finding ∈ tree.findings rules, finding.rule = rule ∧
          tree.lines.locate finding.range = .ok location := by
  have hfindings := findings_ordered hordered hfaultless rules
  have hok : tree.analyze rules =
      .ok (Diagnostic.arranged ((tree.findings rules).map (Diagnostic.located tree.lines))) := by
    rw [analyze, checkNodes_ok hfaultless]
    exact Diagnostic.ofFindings_eq fun finding hmem => ⟨hfindings finding hmem, h finding hmem⟩
  refine ⟨_, hok, fun rule location => ?_⟩
  have hsubject : ∀ ds : List Diagnostic, (∃ d ∈ ds, d.rule = rule ∧ d.location = location) ↔
      (rule, location) ∈ ds.map Diagnostic.subject := by
    intro ds
    simp [Diagnostic.subject]
  rw [hsubject, Diagnostic.mem_arranged, ← hsubject]
  constructor
  · rintro ⟨d, hd, rfl, rfl⟩
    obtain ⟨finding, hmem, rfl⟩ := List.mem_map.mp hd
    exact ⟨finding, hmem, rfl, LineIndex.locate_eq (hfindings finding hmem) (h finding hmem)⟩
  · rintro ⟨finding, hmem, rfl, hlocate⟩
    refine ⟨_, List.mem_map_of_mem hmem, rfl, ?_⟩
    rw [LineIndex.locate_eq (hfindings finding hmem) (h finding hmem)] at hlocate
    exact Except.ok.inj hlocate

theorem SourceTree.unresolved_iff (rules : RuleSet) :
    (∃ place, tree.analyze rules = .error (.unresolved place)) ↔
      ∃ finding ∈ tree.findings rules, tree.lines.length < finding.range.stop := by
  constructor
  · rintro ⟨place, hplace⟩
    by_cases h : ∃ finding ∈ tree.findings rules, tree.lines.length < finding.range.stop
    · exact h
    · obtain ⟨diagnostics, hok, -⟩ := analyze_of_inside hordered hfaultless rules
        fun finding hmem => Nat.le_of_not_lt fun hlt => h ⟨finding, hmem, hlt⟩
      rw [hok] at hplace
      cases hplace
  · intro h
    obtain ⟨finding, hfirst⟩ := exists_isFirst h
    exact ⟨_, analyze_of_outside hordered hfaultless hfirst⟩

end

/-- What an analysis of any tree comes to. The first malformed string is its error. If there is
none, the arithmetic of the rules is exact, and the error is the first finding that leaves the text,
those of one rule before those of the next and each in the order of the strings; or else the
diagnostics have the rules and locations of what is found, and no others. -/
theorem SourceTree.analyze_of_ordered {tree : SourceTree}
    (h : ∀ node ∈ tree.nodes, ∀ segment ∈ node.segments, segment.range.IsOrdered)
    (rules : RuleSet) :
    ((∃ node ∈ tree.nodes, node.fault? ≠ none) → ∃ node fault,
      IsFirst (·.fault? ≠ none) tree.nodes node ∧ node.fault? = some fault ∧
        tree.analyze rules = .error (.malformed node.id fault)) ∧
    ((∀ node ∈ tree.nodes, node.fault? = none) →
      (∀ node ∈ tree.nodes, node.FoundInside) ∧
      (tree.findings rules =
        (if rules.has .dollarBrace then tree.nodes.flatMap (·.dollarBraces) else []) ++
          if rules.has .unnecessaryInterpolation then tree.nodes.filterMap (·.unnecessary?)
          else []) ∧
      ((∃ place, tree.analyze rules = .error (.unresolved place)) ↔
        ∃ finding ∈ tree.findings rules, tree.lines.length < finding.range.stop) ∧
      (∀ finding,
        IsFirst (fun finding => tree.lines.length < finding.range.stop) (tree.findings rules)
          finding →
        tree.analyze rules = .error (.unresolved (tree.lines.outside finding.range))) ∧
      ((∀ finding ∈ tree.findings rules, finding.range.stop ≤ tree.lines.length) →
        ∃ diagnostics, tree.analyze rules = .ok diagnostics ∧ ∀ rule location,
          (∃ d ∈ diagnostics, d.rule = rule ∧ d.location = location) ↔
            ∃ finding ∈ tree.findings rules, finding.rule = rule ∧
              tree.lines.locate finding.range = .ok location)) := by
  refine ⟨SourceTree.analyze_of_fault rules, fun hfaultless => ⟨?_, ?_, ?_, ?_, ?_⟩⟩
  · exact SourceTree.foundInside_of_faultless h hfaultless
  · exact tree.findings_eq rules
  · exact SourceTree.unresolved_iff h hfaultless rules
  · exact fun finding hfirst => SourceTree.analyze_of_outside h hfaultless hfirst
  · exact SourceTree.analyze_of_inside h hfaultless rules

/-- A malformed string in the hole of a sound one, whichever rules are selected, and strings behind
the end of their text, with and without the rule that comes first. -/
theorem SourceTree.analyze_hand_built :
    ∃ nested short : SourceTree,
      (∀ node ∈ nested.nodes, ∀ segment ∈ node.segments, segment.range.IsOrdered) ∧
      nested.nodes.map (·.fault?) = [none, some (.uncovered ⟨5, 6⟩)] ∧
      (∀ rules, nested.analyze rules = .error (.malformed 7 (.uncovered ⟨5, 6⟩))) ∧
      (∀ node ∈ short.nodes, ∀ segment ∈ node.segments, segment.range.IsOrdered) ∧
      (short.findings .all).map (·.range) = [⟨8, 9⟩, ⟨2, 5⟩] ∧
      short.analyze .all = .error (.unresolved ⟨8, 4⟩) ∧
      short.analyze ⟨false, true⟩ = .error (.unresolved ⟨5, 4⟩) := by
  obtain ⟨nested, hnested⟩ : ∃ tree : SourceTree, tree.nodes =
      [⟨3, .regular, ⟨1, 13⟩, ⟨3, 12⟩, [.hole ⟨3, 12⟩
        (.interpolated ⟨7, .regular, ⟨3, 7⟩, ⟨5, 6⟩, []⟩) none none]⟩,
        ⟨7, .regular, ⟨3, 7⟩, ⟨5, 6⟩, []⟩] :=
    ⟨⟨[.group .paren ⟨0, 14⟩ [.interpolated ⟨_, _, _, _, _⟩]], LineIndex.ofText "f"⟩, rfl⟩
  have hordered : ∀ node ∈ nested.nodes, ∀ segment ∈ node.segments, segment.range.IsOrdered := by
    rw [hnested]
    decide
  refine ⟨nested, ⟨[.interpolated ⟨0, .regular, ⟨2, 6⟩, ⟨5, 5⟩, []⟩, .interpolated ⟨1, .regular,
      ⟨6, 12⟩, ⟨8, 11⟩, [.text "$" ⟨8, 9⟩, .hole ⟨9, 11⟩ (.code ⟨10, 10⟩) none none]⟩],
    LineIndex.ofText "abcd"⟩, hordered, ?_, ?_, by decide, rfl, ?_, ?_⟩
  · rw [hnested]
    rfl
  · intro rules
    have hfaulty : ∃ node ∈ nested.nodes, node.fault? ≠ none := by
      rw [hnested]
      exact ⟨_, List.mem_cons_of_mem _ List.mem_cons_self, by decide⟩
    obtain ⟨node, fault, hfirst, hfault, hanalyze⟩ :=
      (SourceTree.analyze_of_ordered hordered rules).1 hfaulty
    rw [hanalyze]
    rcases List.mem_cons.mp (hnested ▸ hfirst.mem) with rfl | hmem
    · exact absurd rfl hfirst.1
    · cases List.mem_singleton.mp hmem
      cases hfault
      rfl
  · exact ((SourceTree.analyze_of_ordered (by decide) .all).2 (by decide)).2.2.2.1
      ⟨.dollarBrace, 1, ⟨8, 9⟩⟩ ⟨by decide, [], _, rfl, by simp⟩
  · exact ((SourceTree.analyze_of_ordered (by decide) ⟨false, true⟩).2 (by decide)).2.2.2.1
      ⟨.unnecessaryInterpolation, 0, ⟨2, 5⟩⟩ ⟨by decide, [], _, rfl, by simp⟩

end InterpolationLint
