import InterpolationLint.Proofs.Scan.Shape

/-!
# What the texts of a string hold

The texts between the holes of a scanned string hold nothing that opens a hole or closes the string.
In a regular or verbatim string they are made of escapes, doubled characters and characters without
meaning. In a raw string their runs of braces and quotes are too short, but for what a run exceeds
the length that it must have.
-/

namespace InterpolationLint

/-! ## Regular and verbatim strings -/

/-- The characters that stand for one in a text of a string that is not raw. -/
inductive StringKind.Unit : StringKind → List Char → Prop
  | escaped (c : Char) : Unit .regular ['\\', c]
  | quotes : Unit .verbatim ['"', '"']
  | opening {kind : StringKind} : kind = .regular ∨ kind = .verbatim → Unit kind ['\x7b', '\x7b']
  | closing {kind : StringKind} : kind = .regular ∨ kind = .verbatim → Unit kind ['\x7d', '\x7d']
  | regular {c : Char} : c ∉ ['"', '\x7b', '\\', '\n'] → Unit .regular [c]
  | verbatim {c : Char} : c ∉ ['"', '\x7b'] → Unit .verbatim [c]

theorem StringPart.unit_of_read {kind : StringKind} {cs : List Char} {length : Nat}
    (hkind : kind = .regular ∨ kind = .verbatim) (h : StringPart.read kind cs = .text length) :
    kind.Unit (cs.take length) := by
  unfold StringPart.read at h
  split at h
  · cases h
  · cases h
  · cases h
    exact .escaped _
  · cases h
  · cases h
    exact .quotes
  · simp at hkind
  · cases h
  · cases h
    exact .opening hkind
  · cases h
    exact .closing hkind
  · cases h
  · rename_i _ _ c rest hquote _ _ hbrace hlast hescape hnewline _ _
    cases h
    rcases hkind with rfl | rfl
    · have hbackslash : c ≠ '\\' := by
        rintro rfl
        cases rest with
        | nil => exact hlast rfl rfl rfl
        | cons => exact hescape _ _ rfl rfl rfl
      have hline : c ≠ '\n' := fun hc => hnewline rfl hc
      exact .regular (by simp_all)
    · exact .verbatim (by simp_all)

theorem TextRun.units {kind : StringKind} {c d : Cursor}
    (hkind : kind = .regular ∨ kind = .verbatim) (h : TextRun kind c d) :
    ∃ units : List (List Char), c.Reads units.flatten d ∧ ∀ unit ∈ units, kind.Unit unit := by
  induction h with
  | refl c => exact ⟨[], .refl c, by simp⟩
  | @step c d length hread _ ih =>
    obtain ⟨units, hreads, hunits⟩ := ih
    refine ⟨c.ahead.take length :: units, ?_, ?_⟩
    · rw [List.flatten_cons]
      exact (Cursor.Reads.advance c (Cursor.fits_of_part hread).2).trans hreads
    · exact List.forall_mem_cons.mpr ⟨StringPart.unit_of_read hkind hread, hunits⟩

/-! ## Runs -/

/-- A run of `mark` that cannot be made longer, and what stands before and behind it. -/
structure MaximalRun (mark : Char) (cs before : List Char) (length : Nat) (after : List Char) :
    Prop where
  split : cs = before ++ (List.replicate length mark ++ after)
  left : before.getLast? ≠ some mark
  right : after.head? ≠ some mark

theorem runLength_drop {mark : Char} : ∀ {cs : List Char} {n : Nat}, n ≤ runLength mark cs →
    runLength mark (cs.drop n) = runLength mark cs - n
  | _, 0, _ => rfl
  | [], n + 1, h => by simp [runLength] at h
  | c :: cs, n + 1, h => by
    by_cases hc : c = mark
    · subst hc
      rw [runLength_cons_self] at h ⊢
      rw [List.drop_succ_cons, runLength_drop (Nat.le_of_succ_le_succ h), Nat.add_sub_add_right]
    · rw [runLength_cons_of_ne hc] at h
      cases h

theorem runLength_le_append (mark : Char) (xs ys : List Char) :
    runLength mark xs ≤ runLength mark (xs ++ ys) := by
  have h := le_runLength_replicate_append mark (xs.drop (runLength mark xs) ++ ys)
    (runLength mark xs)
  rwa [← List.append_assoc, ← eq_replicate_append] at h

/-- A run behind equal characters lies behind them all, or is a longer run of theirs. -/
theorem MaximalRun.of_replicate_append {mark mark' : Char} {n length : Nat}
    {cs before after : List Char}
    (h : MaximalRun mark (List.replicate n mark' ++ cs) before length after)
    (hlength : length ≠ 0) :
    (∃ before', MaximalRun mark cs before' length after) ∨ mark' = mark ∧ before = [] := by
  rcases List.append_eq_append_iff.mp h.split with ⟨more, rfl, hsplit⟩ | ⟨more, hmore, hsplit⟩
  · refine .inl ⟨more, hsplit, ?_, h.right⟩
    cases more with
    | nil => simp
    | cons => simpa using h.left
  · cases more with
    | nil => exact .inl ⟨[], hsplit.symm, by simp, h.right⟩
    | cons m more =>
      obtain ⟨k, rfl⟩ := Nat.exists_eq_succ_of_ne_zero hlength
      obtain rfl : mark = m := (List.cons.inj hsplit).1
      have hall : ∀ x ∈ before ++ mark :: more, x = mark' := fun x hx =>
        List.eq_of_mem_replicate (hmore.symm ▸ hx)
      have hmark : mark = mark' := hall mark (by simp)
      refine .inr ⟨hmark.symm, List.getLast?_eq_none_iff.mp ?_⟩
      by_contra hsome
      obtain ⟨x, hx⟩ := Option.ne_none_iff_exists'.mp hsome
      have hxmark := hall x (List.mem_append_left _ (List.mem_of_getLast? hx))
      exact h.left (by rw [hx, hxmark, hmark])

/-! ## Raw strings -/

/-- What a run of a character means in a raw string, and how long it must be. -/
inductive RawMark (dollars quotes : Nat) : Char → Nat → StringPart → Prop
  | hole : 1 ≤ dollars → RawMark dollars quotes '\x7b' dollars .hole
  | close : 1 ≤ quotes → RawMark dollars quotes '"' quotes .close

namespace RawMark

variable {dollars quotes needed : Nat} {mark : Char} {part : StringPart}

theorem pos (h : RawMark dollars quotes mark needed part) : 1 ≤ needed := by
  cases h <;> assumption

theorem ne_text (h : RawMark dollars quotes mark needed part) (length : Nat) :
    part ≠ .text length := by
  cases h <;> nofun

theorem read_eq (h : RawMark dollars quotes mark needed part) {cs : List Char}
    (hrun : 1 ≤ runLength mark cs) :
    StringPart.read (.raw dollars quotes) cs = .ofRun (runLength mark cs) needed part := by
  rcases runLength_eq_zero_or mark cs with hz | ⟨rest, rfl⟩
  · omega
  · cases h <;> simp [StringPart.read]

theorem unique {needed' : Nat} {part' : StringPart} (h : RawMark dollars quotes mark needed part)
    (h' : RawMark dollars quotes mark needed' part') : needed' = needed ∧ part' = part := by
  cases h <;> cases h' <;> exact ⟨rfl, rfl⟩

end RawMark

/-- Text of a raw string is a character without meaning, a run of a mark that is too short, or what
a run has more than it needs. -/
inductive RawText (dollars quotes : Nat) (cs : List Char) : Char → Nat → Prop
  | other {c : Char} : cs.head? = some c →
      (∀ needed part, ¬ RawMark dollars quotes c needed part) → RawText dollars quotes cs c 1
  | short {mark : Char} {needed : Nat} {part : StringPart} :
      RawMark dollars quotes mark needed part → 1 ≤ runLength mark cs →
      runLength mark cs < needed → RawText dollars quotes cs mark (runLength mark cs)
  | surplus {mark : Char} {needed length : Nat} {part : StringPart} :
      RawMark dollars quotes mark needed part → length ≤ runLength mark cs →
      StringPart.read (.raw dollars quotes) (cs.drop length) = part →
      RawText dollars quotes cs mark length

theorem RawText.take_eq {dollars quotes length : Nat} {cs : List Char} {mark : Char}
    (h : RawText dollars quotes cs mark length) : cs.take length = List.replicate length mark := by
  cases h with
  | other hhead =>
    obtain ⟨rest, rfl⟩ := List.head?_eq_some_iff.mp hhead
    rfl
  | short => exact take_of_le_runLength (Nat.le_refl _)
  | surplus _ hle => exact take_of_le_runLength hle

section
variable {dollars quotes : Nat} (hdollars : 1 ≤ dollars) (hquotes : 1 ≤ quotes)
include hdollars hquotes

theorem StringPart.rawText_of_read {length : Nat} {cs : List Char}
    (h : StringPart.read (.raw dollars quotes) cs = .text length) :
    ∃ mark, RawText dollars quotes cs mark length := by
  have hmark : ∀ {mark needed part}, RawMark dollars quotes mark needed part →
      1 ≤ runLength mark cs → ∃ mark, RawText dollars quotes cs mark length := by
    intro mark needed part hmark hrun
    rw [hmark.read_eq hrun, ofRun] at h
    by_cases hshort : runLength mark cs < needed
    · rw [if_pos hshort] at h
      cases h
      exact ⟨mark, .short hmark hrun hshort⟩
    · rw [if_neg hshort] at h
      by_cases hexact : runLength mark cs = needed
      · rw [if_pos hexact] at h
        exact absurd h (hmark.ne_text length)
      · rw [if_neg hexact] at h
        cases h
        have hdrop : runLength mark (cs.drop (runLength mark cs - needed)) = needed := by
          rw [runLength_drop (Nat.sub_le _ _)]
          omega
        refine ⟨mark, .surplus hmark (Nat.sub_le _ _) ?_⟩
        rw [hmark.read_eq (hdrop.symm ▸ hmark.pos), hdrop, ofRun]
        simp
  cases cs with
  | nil => simp [read] at h
  | cons c rest =>
    by_cases hquote : c = '"'
    · subst hquote
      exact hmark (.close hquotes) (by simp [runLength_cons_self])
    · by_cases hbrace : c = '\x7b'
      · subst hbrace
        exact hmark (.hole hdollars) (by simp [runLength_cons_self])
      · simp only [read, beq_iff_eq, hquote, hbrace, ite_false] at h
        cases h
        refine ⟨c, .other rfl ?_⟩
        rintro needed part (_ | _)
        · exact hbrace rfl
        · exact hquote rfl

/-- A run of a mark in a text is too short to mean anything, unless the text ends with it and its
meaning follows. -/
theorem TextRun.maximalRun {c d : Cursor} (h : TextRun (.raw dollars quotes) c d) {mark : Char}
    {needed : Nat} {part : StringPart} (hmark : RawMark dollars quotes mark needed part)
    {cs before after : List Char} {length : Nat} (hreads : c.Reads cs d)
    (hrun : MaximalRun mark cs before length after) :
    length < needed ∨ after = [] ∧ StringPart.read (.raw dollars quotes) d.ahead = part := by
  by_cases hlength : length = 0
  · exact .inl (hlength ▸ hmark.pos)
  induction h generalizing cs before with
  | refl c =>
    have hnil : [] = cs := (Cursor.Reads.refl c).textUpTo.symm.trans hreads.textUpTo
    have hsplit := hrun.split
    rw [← hnil] at hsplit
    simp [hlength] at hsplit
  | @step c d n hread hrest ih =>
    obtain ⟨mark', htext⟩ := StringPart.rawText_of_read hdollars hquotes hread
    obtain ⟨cs', hreads'⟩ := hrest.reaches
    have hfirst := (Cursor.Reads.advance c (Cursor.fits_of_part hread).2).trans hreads'
    obtain rfl : List.replicate n mark' ++ cs' = cs := by
      rw [← htext.take_eq, ← hfirst.textUpTo, hreads.textUpTo]
    rcases hrun.of_replicate_append hlength with ⟨before', hrun'⟩ | ⟨rfl, rfl⟩
    · exact ih hreads' hrun'
    · -- the run begins at the front, so its mark and its length are those of the first text
      have hsplit := hrun.split
      rw [List.nil_append] at hsplit
      cases htext with
      | other _ hnone => exact absurd hmark (hnone _ _)
      | short hmark' _ hlt =>
        obtain ⟨rfl, rfl⟩ := hmark.unique hmark'
        have hle := runLength_le_append mark' (List.replicate length mark' ++ after) d.ahead
        rw [runLength_replicate_append mark' hrun.right, ← hsplit, ← hreads.ahead] at hle
        exact .inl (Nat.lt_of_le_of_lt hle hlt)
      | surplus hmark' _ hpart =>
        obtain ⟨rfl, rfl⟩ := hmark.unique hmark'
        obtain rfl := hrest.eq_of_read hpart hmark.ne_text
        have hnil : [] = cs' := (Cursor.Reads.refl _).textUpTo.symm.trans hreads'.textUpTo
        rw [← hnil, List.append_nil] at hsplit
        refine .inr ⟨?_, hpart⟩
        cases after with
        | nil => rfl
        | cons a after =>
          have hmem : a ∈ List.replicate n mark' := hsplit ▸ by simp
          exact absurd (List.eq_of_mem_replicate hmem ▸ rfl) hrun.right

end

/-! ## Texts of a string -/

/-- A text in a string of some kind opens no hole and does not close the string. In a raw string a
long run may end it where a hole follows, or where the content ends. -/
def StringKind.Plain (cs : List Char) (holeNext last : Prop) : StringKind → Prop
  | .raw dollars quotes =>
    (∀ before length after, MaximalRun '\x7b' cs before length after →
      length < dollars ∨ after = [] ∧ holeNext) ∧
    ∀ before length after, MaximalRun '"' cs before length after →
      length < quotes ∨ after = [] ∧ last
  | kind => ∃ units : List (List Char), cs = units.flatten ∧ ∀ unit ∈ units, kind.Unit unit

theorem StringKind.plain_of_units {kind : StringKind} {cs : List Char} {holeNext last : Prop}
    (hkind : kind = .regular ∨ kind = .verbatim)
    (h : ∃ units : List (List Char), cs = units.flatten ∧ ∀ unit ∈ units, kind.Unit unit) :
    kind.Plain cs holeNext last := by
  rcases hkind with rfl | rfl <;> exact h

theorem StringKind.Marked.raw_pos {dollars quotes : Nat} {marker : List Char}
    (h : StringKind.Marked (.raw dollars quotes) marker) : 1 ≤ dollars ∧ 3 ≤ quotes := by
  cases h with
  | raw hdollars hquotes => exact ⟨hdollars, hquotes⟩

theorem InterpolatedString.ReadFrom.plain {text : List Char} {node : InterpolatedString}
    (h : node.ReadFrom text) {before after : List Segment} {written : String} {range : TextRange}
    (hsplit : node.segments = before ++ .text written range :: after) :
    node.kind.Plain written.toList (∃ hole rest, after = hole :: rest ∧ hole.isHole = true)
      (range.stop = node.content.stop) := by
  obtain ⟨c, final, -, -, hfinal, hturns⟩ := h.turns
  obtain ⟨c', d, -, hturn⟩ := hturns.textTurn hsplit
  have hread := hturn.reads
  obtain ⟨marker, -, hmarked, -, -⟩ := h.marked
  cases hkind : node.kind with
  | raw dollars quotes =>
    rw [hkind] at hturn hmarked
    obtain ⟨hdollars, hthree⟩ := hmarked.raw_pos
    have hquotes : 1 ≤ quotes := by omega
    constructor
    · intro before' length after' hrun
      rcases hturn.run.maximalRun hdollars hquotes (.hole hdollars) hread hrun with
        hlt | ⟨hnil, hhole⟩
      · exact .inl hlt
      · rcases hturn.next with ⟨hclose, -, -⟩ | ⟨-, hnext⟩
        · cases hclose.symm.trans hhole
        · exact .inr ⟨hnil, hnext⟩
    · intro before' length after' hrun
      rcases hturn.run.maximalRun hdollars hquotes (.close hquotes) hread hrun with
        hlt | ⟨hnil, hclose⟩
      · exact .inl hlt
      · rcases hturn.next with ⟨-, -, rfl⟩ | ⟨hhole, -⟩
        · exact .inr ⟨hnil, by rw [hturn.range]; exact hfinal⟩
        · cases hhole.symm.trans hclose
  | _ =>
    rw [hkind] at hturn
    obtain ⟨units, hunits, hall⟩ := hturn.run.units (by simp)
    have hwritten : written.toList = units.flatten := hread.textUpTo.symm.trans hunits.textUpTo
    exact StringKind.plain_of_units (by simp) ⟨units, hwritten, hall⟩

/-- The texts of every string hold no hole and no closing quotes. -/
theorem SourceTree.texts_plain {source : String} {tree : SourceTree}
    (h : SourceTree.ofSource source = .ok tree) :
    ∀ node ∈ tree.nodes, ∀ before written range after,
      node.segments = before ++ .text written range :: after →
      node.kind.Plain written.toList (∃ hole rest, after = hole :: rest ∧ hole.isHole = true)
        (range.stop = node.content.stop) :=
  fun node hnode _ _ _ _ hsplit => (SourceTree.readFrom h node hnode).plain hsplit

/-- A raw string with a brace and a quote too many, a regular and a verbatim string with escapes. -/
theorem SourceTree.texts_plain_of_each_kind : ∃ source tree,
    source = "$$\"\"\"a\"\x7b\x7b\x7bx\x7d\x7d\"\"\"\"$\"\\\"\x7by\x7d\"@$\"\"\"\x7bz\x7d\"" ∧
    SourceTree.ofSource source = .ok tree ∧
    tree.nodes.map (fun node => (node.kind, node.segments.map Segment.range)) =
      [(.raw 2 3, [⟨5, 8⟩, ⟨8, 13⟩, ⟨13, 14⟩]), (.regular, [⟨19, 21⟩, ⟨21, 24⟩]),
        (.verbatim, [⟨28, 30⟩, ⟨30, 33⟩])] ∧
    ∀ node ∈ tree.nodes, ∀ before written range after,
      node.segments = before ++ .text written range :: after →
      node.kind.Plain written.toList (∃ hole rest, after = hole :: rest ∧ hole.isHole = true)
        (range.stop = node.content.stop) := by
  have hscan : (SourceTree.ofSource
      "$$\"\"\"a\"\x7b\x7b\x7bx\x7d\x7d\"\"\"\"$\"\\\"\x7by\x7d\"@$\"\"\"\x7bz\x7d\"").toOption.map
      (fun tree => tree.nodes.map (fun node => (node.kind, node.segments.map Segment.range))) =
      some [(.raw 2 3, [⟨5, 8⟩, ⟨8, 13⟩, ⟨13, 14⟩]), (.regular, [⟨19, 21⟩, ⟨21, 24⟩]),
        (.verbatim, [⟨28, 30⟩, ⟨30, 33⟩])] := by
    decide +kernel
  obtain ⟨tree, htree, hnodes⟩ := exists_ok_of_map hscan
  exact ⟨_, tree, rfl, htree, hnodes, SourceTree.texts_plain htree⟩

end InterpolationLint
