import InterpolationLint.Proofs.Scan.Paving
import InterpolationLint.Proofs.Suppression.Site

/-!
# Where suppressions come from

Directives are found line by line, without the tree of the text. So they are found in comments and in
directive lines, but also in string text that looks like a comment with a directive. There the string
text holds all of it, from the opening of the comment to the marker.
-/

namespace InterpolationLint

/-! ## Directives in string text -/

theorem fence_not_mem {fence : Char} (hfence : fence ∈ fences) {opening blanks : List Char}
    (hopening : opening = ['/', '/'] ∨ opening = ['/', '*'])
    (hblanks : ∀ c ∈ blanks, isBlank c = true) : fence ∉ opening ++ (blanks ++ marker) := by
  have hplain : fences.all
      (fun c => decide (c ∉ ['/', '*'] ∧ isBlank c = false ∧ c ∉ marker)) = true := by
    decide
  obtain ⟨hslash, hblank, hmarker⟩ := of_decide_eq_true (List.all_eq_true.mp hplain fence hfence)
  simp only [List.mem_append, not_or]
  refine ⟨?_, fun hmem => ?_, hmarker⟩
  · rcases hopening with rfl | rfl
    · have hsubset : ['/', '/'] ⊆ ['/', '*'] := by simp
      exact fun hmem => hslash (hsubset hmem)
    · exact hslash
  · cases (hblanks fence hmem).symm.trans hblank

/-- The opening of a directive ends before the next quote or brace. -/
theorem OpensDirective.take {cs : List Char} (h : OpensDirective cs) {i n : Nat} {fence : Char}
    (hfence : fence ∈ fences) (hi : cs[i]? = some fence) (hle : i ≤ n) :
    OpensDirective (cs.take n) := by
  obtain ⟨opening, blanks, rest, hopening, hblanks, hcs⟩ := h
  have hsplit : cs = (opening ++ (blanks ++ marker)) ++ rest := by
    rw [hcs]
    simp
  have hbefore : (opening ++ (blanks ++ marker)).length ≤ i := by
    by_contra hlt
    rw [hsplit, List.getElem?_append_left (Nat.lt_of_not_le hlt)] at hi
    exact fence_not_mem hfence hopening hblanks (List.mem_of_getElem? hi)
  refine ⟨opening, blanks, rest.take (n - (opening ++ (blanks ++ marker)).length), hopening,
    hblanks, ?_⟩
  rw [hsplit, List.take_append, List.take_of_length_le (Nat.le_trans hbefore hle)]
  simp

/-- A directive that begins in string text has its marker there too. -/
theorem Fenced.opensDirective {text : List Char} {a b o : Nat} (h : Fenced text a b) (ha : a ≤ o)
    (hb : o < b) (ho : OpensDirective (text.drop o)) : OpensDirective ((text.take b).drop o) := by
  rcases h with hplain | ⟨p, fence, hp, hpb, hchar, hfence⟩
  · exact absurd ho.beginsComment (hplain o ha hb)
  · obtain ⟨i, rfl⟩ := Nat.exists_eq_add_of_le (Nat.le_of_lt_succ (Nat.lt_of_lt_of_le hb hp))
    rw [← List.getElem?_drop] at hchar
    rw [List.drop_take]
    exact ho.take hfence hchar (by omega)

/-! ## Offsets of directives -/

theorem BeginsComment.lt_length {text : List Char} {o : Nat} (h : BeginsComment (text.drop o)) :
    o < text.length := by
  have hslash := h.head?
  rw [List.head?_drop] at hslash
  exact (List.getElem?_eq_some_iff.mp hslash).1

theorem BeginsComment.markLength_le {text : List Char} {o : Nat}
    (h : BeginsComment (text.drop o)) : LineIndex.markLength text ≤ o := by
  cases o with
  | zero =>
    have hslash : text.head? = some '/' := h.head?
    rw [LineIndex.markLength_eq_zero]
    rw [hslash]
    decide
  | succ o =>
    cases text with
    | nil => exact Nat.zero_le _
    | cons c text =>
      rw [LineIndex.markLength]
      split <;> omega

theorem SourceTree.comment_or_text {text : List Char} {tree : SourceTree}
    (h : SourceTree.ofChars text = .ok tree) {o : Nat} (ho : OpensDirective (text.drop o)) :
    CommentAt text tree.texts o ∨ ∃ range ∈ tree.texts, range.contains (.single o) = true ∧
      OpensDirective ((text.take range.stop).drop o) := by
  have hcomment := ho.beginsComment
  rcases (SourceTree.paved h).comment_or_string hcomment.markLength_le hcomment.lt_length
    hcomment with hskipped | ⟨range, hrange, hcontains, hfenced⟩
  · exact .inl hskipped
  · have hinside := TextRange.contains_single.mp hcontains
    exact .inr ⟨range, hrange, hcontains, hfenced.opensDirective hinside.1 hinside.2 ho⟩

theorem TextRange.marker_of_opensDirective {text : List Char} {range : TextRange} {o : Nat}
    (hcontains : range.contains (.single o) = true)
    (h : OpensDirective ((text.take range.stop).drop o)) :
    marker <:+: (text.take range.stop).drop range.start := by
  obtain ⟨opening, blanks, rest, -, -, hdrop⟩ := h
  have hinfix : marker <:+: (text.take range.stop).drop o :=
    ⟨opening ++ blanks, rest, by rw [hdrop]; simp⟩
  have hsuffix := List.drop_suffix_drop_left (text.take range.stop) (contains_single.mp hcontains).1
  exact hinfix.trans hsuffix.isInfix

/-- Every suppression comes from a place that looks like a comment with a directive. Either it is
one, or a directive line, and no string text, or it is string text that has the marker of the
directive in it. So a text suppresses by its comments alone if no string text has the marker. -/
theorem SourceTree.directives_located {source : String} {tree : SourceTree}
    (h : SourceTree.ofSource source = .ok tree) (file : String) :
    (SuppressionSite.ofChars file source.toList).map (·.suppression) =
      Suppression.ofSource file source ∧
    (∀ site ∈ SuppressionSite.ofChars file source.toList,
      OpensDirective (source.toList.drop site.offset) ∧
      (CommentAt source.toList tree.texts site.offset ∨
        ∃ range ∈ tree.texts, range.contains (.single site.offset) = true ∧
          OpensDirective ((source.toList.take range.stop).drop site.offset))) ∧
    ((∀ range ∈ tree.texts, ¬marker <:+: (source.toList.take range.stop).drop range.start) →
      ∀ site ∈ SuppressionSite.ofChars file source.toList,
        CommentAt source.toList tree.texts site.offset) := by
  refine ⟨SuppressionSite.suppression_ofChars file _, ?_, ?_⟩
  · intro site hsite
    have hopens := (SuppressionSite.in_of_mem hsite).directive
    exact ⟨hopens, SourceTree.comment_or_text h hopens⟩
  · intro hunmarked site hsite
    have hopens := (SuppressionSite.in_of_mem hsite).directive
    rcases SourceTree.comment_or_text h hopens with hcomment | ⟨range, hrange, hcontains, hinside⟩
    · exact hcomment
    · exact absurd (range.marker_of_opensDirective hcontains hinside) (hunmarked range hrange)

/-- Two slashes in a string without the marker, and a directive behind it. -/
theorem SourceTree.directives_located_behind_string : ∃ source tree,
    source = "f(\"//a\") // interpcheck:ignore *" ∧ SourceTree.ofSource source = .ok tree ∧
    tree.texts = [⟨2, 7⟩] ∧
    (SuppressionSite.ofChars "a.cs" source.toList).map (·.offset) = [9] ∧
    ∀ site ∈ SuppressionSite.ofChars "a.cs" source.toList,
      CommentAt source.toList tree.texts site.offset := by
  have hscan : SourceTree.ofSource "f(\"//a\") // interpcheck:ignore *" =
      .ok ⟨[.code ⟨0, 1⟩, .group .paren ⟨1, 8⟩ [.literal ⟨2, 7⟩]],
        LineIndex.ofChars "f(\"//a\") // interpcheck:ignore *".toList⟩ := rfl
  refine ⟨_, _, rfl, hscan, rfl, by decide +kernel, ?_⟩
  apply (SourceTree.directives_located hscan "a.cs").2.2
  decide +kernel

/-- The text of an interpolated string and a plain literal suppress what is found on their lines. -/
theorem SourceTree.directives_in_texts :
    (∃ tree range, SourceTree.ofSource "$\"// interpcheck:ignore * \"" = .ok tree ∧
      (∃ node ∈ tree.nodes, .text "// interpcheck:ignore * " range ∈ node.segments) ∧
      range.contains (.single 2) = true ∧
      (SuppressionSite.ofChars "a.cs" "$\"// interpcheck:ignore * \"".toList).map
        (fun site => (site.offset, site.suppression)) = [(2, ⟨"*", "", "a.cs", 1, .line⟩)]) ∧
    ∃ tree range, SourceTree.ofSource "\"/* interpcheck:ignore * */\"" = .ok tree ∧
      .literal range ∈ tree.items ∧ range.contains (.single 1) = true ∧
      (SuppressionSite.ofChars "a.cs" "\"/* interpcheck:ignore * */\"".toList).map
        (fun site => (site.offset, site.suppression)) = [(1, ⟨"*", "", "a.cs", 1, .line⟩)] := by
  constructor
  · have hscan : SourceTree.ofSource "$\"// interpcheck:ignore * \"" =
        .ok ⟨[.interpolated ⟨0, .regular, ⟨0, 27⟩, ⟨2, 26⟩,
          [.text "// interpcheck:ignore * " ⟨2, 26⟩]⟩],
          LineIndex.ofChars "$\"// interpcheck:ignore * \"".toList⟩ := rfl
    exact ⟨_, ⟨2, 26⟩, hscan, ⟨_, List.mem_singleton_self _, List.mem_singleton_self _⟩,
      by decide, by decide +kernel⟩
  · have hscan : SourceTree.ofSource "\"/* interpcheck:ignore * */\"" =
        .ok ⟨[.literal ⟨0, 28⟩], LineIndex.ofChars "\"/* interpcheck:ignore * */\"".toList⟩ := rfl
    exact ⟨_, ⟨0, 28⟩, hscan, List.mem_singleton_self _, by decide, by decide +kernel⟩

end InterpolationLint
