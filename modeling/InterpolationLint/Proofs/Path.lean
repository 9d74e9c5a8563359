import InterpolationLint.Path
import InterpolationLint.Text.Order
import Mathlib.Data.List.Basic
import Mathlib.Data.List.TakeWhile

/-!
# Paths of entries

A path that is joined from a directory and the names of entries below it has the parts of the
directory, followed by these names. So paths of one directory stand in the order of their names.
-/

namespace InterpolationLint

namespace PathPart

def Before : PathPart → PathPart → Prop
  | name a, name b => a < b
  | a, b => a.rank < b.rank

instance : Std.TransOrd PathPart :=
  inferInstanceAs (Std.TransCmp (compareLex (compareOn rank) (compareOn written)))

instance : Std.LawfulEqOrd PathPart where
  eq_of_compare {a b} h := by
    obtain ⟨hrank, hwritten⟩ := Ordering.then_eq_eq.mp h
    have hrank : a.rank = b.rank := Std.compare_eq_iff_eq.mp hrank
    have hwritten : a.written = b.written := Std.compare_eq_iff_eq.mp hwritten
    cases a <;> cases b <;> simp_all [rank, written]

theorem before_of_compare_eq_lt {a b : PathPart} (h : compare a b = .lt) : a.Before b := by
  rcases Ordering.then_eq_lt.mp h with hrank | ⟨hrank, hwritten⟩
  · have hrank : a.rank < b.rank := Std.compare_eq_lt.mp hrank
    cases a <;> cases b <;> simp_all [rank, Before]
  · have hrank : a.rank = b.rank := Std.compare_eq_iff_eq.mp hrank
    have hwritten : a.written < b.written := Std.compare_eq_lt.mp hwritten
    cases a <;> cases b <;> simp_all [rank, written, Before]

end PathPart

namespace Path

/-! ## Order -/

def Before (p q : String) : Prop := List.Lex PathPart.Before (parts p) (parts q)

theorem Before.irrefl (p : String) : ¬Before p p := by
  have hpart : ∀ part : PathPart, ¬part.Before part := by
    intro part
    cases part <;> simp [PathPart.Before]
  unfold Before
  induction parts p with
  | nil => nofun
  | cons part parts ih =>
    intro h
    cases h with
    | rel h => exact hpart part h
    | cons h => exact ih h

theorem lex_of_compare_eq_lt : ∀ {ps qs : List PathPart}, compare ps qs = .lt →
    List.Lex PathPart.Before ps qs
  | [], [], h => by cases h
  | [], q :: qs, _ => .nil
  | p :: ps, [], h => by cases h
  | p :: ps, q :: qs, h => by
    rw [List.compare_cons_cons, Ordering.then_eq_lt] at h
    rcases h with hlt | ⟨heq, hlt⟩
    · exact .rel (PathPart.before_of_compare_eq_lt hlt)
    · obtain rfl := Std.compare_eq_iff_eq.mp heq
      exact .cons (lex_of_compare_eq_lt hlt)

theorem before_of_order_eq_lt {p q : String} (h : order p q = .lt) : Before p q :=
  lex_of_compare_eq_lt h

instance : Std.TransCmp order :=
  inferInstanceAs (Std.TransCmp (compareOn parts))

/-! ## Pieces -/

theorem pieces_ne_nil (cs : List Char) : pieces cs ≠ [] := by
  cases cs with
  | nil => simp [pieces]
  | cons c cs =>
    by_cases hc : c = '/'
    · simp [pieces, hc]
    · cases hpieces : pieces cs <;> simp [pieces, hc, hpieces]

theorem pieces_append_slash (xs ys : List Char) :
    pieces (xs ++ '/' :: ys) = pieces xs ++ pieces ys := by
  induction xs with
  | nil => simp [pieces]
  | cons c xs ih =>
    by_cases hc : c = '/'
    · simp [pieces, hc, ih]
    · cases hpieces : pieces xs with
      | nil => exact absurd hpieces (pieces_ne_nil xs)
      | cons piece more => simp [pieces, hc, ih, hpieces]

theorem pieces_of_not_mem {cs : List Char} (h : '/' ∉ cs) : pieces cs = [cs] := by
  induction cs with
  | nil => rfl
  | cons c cs ih =>
    simp only [List.mem_cons, not_or] at h
    simp [pieces, Ne.symm h.1, ih h.2]

theorem pieces_intercalate {root : String} {names : List String}
    (h : ∀ name ∈ names, IsEntryName name) :
    pieces (String.intercalate "/" (root :: names)).toList =
      pieces root.toList ++ names.map String.toList := by
  induction names generalizing root with
  | nil => simp
  | cons name names ih =>
    obtain ⟨hname, hnames⟩ := List.forall_mem_cons.mp h
    have hsplit : (String.intercalate "/" (root :: name :: names)).toList =
        root.toList ++ '/' :: (String.intercalate "/" (name :: names)).toList := by
      simp [String.toList_intercalate]
    rw [hsplit, pieces_append_slash, ih hnames, pieces_of_not_mem hname.1]
    rfl

theorem partOfPiece?_name {name : String} (h : IsEntryName name) :
    partOfPiece? name.toList = some (.name name) := by
  obtain ⟨-, hname⟩ := h
  have hne : ∀ text : String, text ∈ ["", ".", ".."] → name.toList ≠ text.toList := by
    intro text htext heq
    rw [String.toList_inj.mp heq] at hname
    exact hname htext
  have hempty := hne "" (by simp)
  have hhere := hne "." (by simp)
  have hup := hne ".." (by simp)
  simp_all [partOfPiece?]

/-! ## Parts -/

def front (cs : List Char) : List PathPart :=
  match cs with
  | '/' :: _ => [.root]
  | _ => if (pieces cs).head? = some ['.'] then [.here] else []

theorem parts_eq (path : String) :
    parts path = front path.toList ++ (pieces path.toList).filterMap partOfPiece? := rfl

theorem front_append_slash {xs : List Char} (hxs : xs ≠ []) (ys : List Char) :
    front (xs ++ '/' :: ys) = front xs := by
  cases xs with
  | nil => exact absurd rfl hxs
  | cons c xs =>
    by_cases hc : c = '/'
    · simp [front, hc]
    · have hhead : (pieces (c :: xs ++ '/' :: ys)).head? = (pieces (c :: xs)).head? := by
        rw [pieces_append_slash]
        exact List.head?_append_of_ne_nil _ (pieces_ne_nil _)
      rw [List.cons_append] at hhead ⊢
      simp [front, hc, hhead]

theorem front_name {name : String} (h : IsEntryName name) : front name.toList = [] := by
  have hpieces := pieces_of_not_mem h.1
  have hhere : name.toList ≠ ['.'] := by
    intro heq
    exact h.2 (by simp [String.toList_inj.mp (show name.toList = ".".toList from heq)])
  unfold front
  split
  · rename_i hslash
    exact absurd (by rw [hslash]; exact List.mem_cons_self) h.1
  · simp [hpieces, hhere]

theorem parts_name {name : String} (h : IsEntryName name) : parts name = [.name name] := by
  simp [parts_eq, front_name h, pieces_of_not_mem h.1, partOfPiece?_name h]

/-- A last name behind a slash is a last part. -/
theorem parts_of_slash {name root path : String} (h : IsEntryName name) (xs : List Char)
    (hpath : path.toList = xs ++ '/' :: name.toList)
    (hfront : front (xs ++ '/' :: name.toList) = front root.toList)
    (hparts : (pieces xs).filterMap partOfPiece? = (pieces root.toList).filterMap partOfPiece?) :
    parts path = parts root ++ [.name name] := by
  rw [parts_eq, parts_eq, hpath, hfront, pieces_append_slash, pieces_of_not_mem h.1,
    List.filterMap_append, hparts, List.append_assoc]
  simp [partOfPiece?_name h]

theorem parts_join {name : String} (h : IsEntryName name) (root : String) :
    parts (join root name) = parts root ++ [.name name] := by
  rcases List.eq_nil_or_concat' root.toList with hnil | ⟨xs, c, hroot⟩
  · have hempty : parts root = [] := by
      rw [parts_eq, hnil]
      rfl
    have hjoin : join root name = name := by simp [join, hnil]
    rw [hjoin, hempty, parts_name h, List.nil_append]
  · by_cases hc : c = '/'
    · subst hc
      have hjoin : join root name = root ++ name := by simp [join, hroot]
      apply parts_of_slash h xs
      · rw [hjoin, String.toList_append, hroot, List.append_assoc, List.singleton_append]
      · rw [hroot]
        by_cases hxs : xs = []
        · simp [hxs, front]
        · rw [front_append_slash hxs, front_append_slash hxs]
      · rw [hroot, pieces_append_slash, List.filterMap_append]
        simp [pieces, partOfPiece?]
    · have hjoin : join root name = root ++ "/" ++ name := by simp [join, hroot]
      apply parts_of_slash h root.toList
      · simp [hjoin]
      · rw [front_append_slash (by simp [hroot])]
      · rfl

theorem parts_foldl_join {names : List String} (h : ∀ name ∈ names, IsEntryName name)
    (root : String) : parts (names.foldl join root) = parts root ++ names.map .name := by
  induction names generalizing root with
  | nil => simp
  | cons name names ih =>
    rw [List.foldl_cons, ih fun n hn => h n (List.mem_cons_of_mem name hn),
      parts_join (h name List.mem_cons_self)]
    simp

theorem exists_getLast_name {name : String} (h : IsEntryName name) :
    ∃ c, name.toList.getLast? = some c ∧ c ≠ '/' := by
  cases hlast : name.toList.getLast? with
  | none =>
    have hempty : name = "" := by simpa using hlast
    exact absurd (by simp [hempty]) h.2
  | some c =>
    refine ⟨c, rfl, ?_⟩
    rintro rfl
    exact h.1 (List.mem_of_getLast? hlast)

theorem getLast?_join {root name : String} (h : IsEntryName name) :
    (join root name).toList.getLast? = name.toList.getLast? := by
  obtain ⟨c, hlast, -⟩ := exists_getLast_name h
  unfold join
  split <;> simp [List.getLast?_append, List.getLast?_cons, hlast]

/-- Names are joined by slashes. -/
theorem foldl_join_eq {root : String} {c : Char} (hroot : root.toList.getLast? = some c)
    (hc : c ≠ '/') {names : List String} (h : ∀ name ∈ names, IsEntryName name) :
    names.foldl join root = String.intercalate "/" (root :: names) := by
  induction names generalizing root c with
  | nil => simp
  | cons name names ih =>
    obtain ⟨hname, hnames⟩ := List.forall_mem_cons.mp h
    obtain ⟨d, hlast, hd⟩ := exists_getLast_name hname
    rw [List.foldl_cons, ih ((getLast?_join hname).trans hlast) hd hnames]
    simp [join, hroot, String.append_assoc]

theorem parts_intercalate {names : List String} (h : ∀ name ∈ names, IsEntryName name)
    (hne : names ≠ []) : parts (String.intercalate "/" names) = names.map .name := by
  cases names with
  | nil => exact absurd rfl hne
  | cons name names =>
    have hrest : ∀ n ∈ names, IsEntryName n := fun n hn => h n (List.mem_cons_of_mem name hn)
    obtain ⟨c, hlast, hc⟩ := exists_getLast_name (h name List.mem_cons_self)
    rw [← foldl_join_eq hlast hc hrest, parts_foldl_join hrest,
      parts_name (h name List.mem_cons_self)]
    rfl

theorem fileName?_eq {path : String} {before : List PathPart} {names : List String}
    (h : parts path = before ++ names.map .name) (hne : names ≠ []) :
    fileName? path = names.getLast? := by
  obtain ⟨init, last, rfl⟩ := (List.eq_nil_or_concat' names).resolve_left hne
  simp [fileName?, h]

theorem parentParts?_eq {path : String} {names : List String} (h : parts path = names.map .name)
    (hne : names ≠ []) : parentParts? path = some (names.dropLast.map .name) := by
  obtain ⟨init, last, rfl⟩ := (List.eq_nil_or_concat' names).resolve_left hne
  simp [parentParts?, h]

/-- The extension stands behind the last dot, if there is something before that dot. -/
theorem extension?_eq_some_iff {path extension : String} :
    extension? path = some extension ↔
      ∃ stem, fileName? path = some (stem ++ "." ++ extension) ∧ stem ≠ "" ∧
        '.' ∉ extension.toList := by
  unfold extension?
  cases hname : fileName? path with
  | none => simp
  | some name =>
    simp only [Option.bind_eq_bind, Option.bind_some, Option.some.injEq]
    constructor
    · intro h
      have hsplit := List.takeWhile_append_dropWhile (p := (· != '.')) (l := name.toList.reverse)
      have hplain := fun c => @List.mem_takeWhile_imp _ (· != '.') name.toList.reverse c
      generalize name.toList.reverse.takeWhile (· != '.') = backward at h hsplit hplain
      split at h
      · rename_i c rest hdrop
        cases h
        refine ⟨String.ofList (c :: rest).reverse, ?_, by simp, ?_⟩
        · rw [← String.toList_inj, ← List.reverse_inj, ← hsplit, hdrop]
          simp
        · intro hdot
          rw [String.toList_ofList, List.mem_reverse] at hdot
          simpa using hplain '.' hdot
      · cases h
    · rintro ⟨stem, rfl, hstem, hdot⟩
      have hbackward : (stem ++ "." ++ extension).toList.reverse =
          extension.toList.reverse ++ '.' :: stem.toList.reverse := by simp
      have hplain : ∀ c ∈ extension.toList.reverse, (c != '.') = true := by
        intro c hc
        rw [bne_iff_ne]
        rintro rfl
        exact hdot (List.mem_reverse.mp hc)
      rw [hbackward, List.dropWhile_append_of_pos hplain, List.takeWhile_append_of_pos hplain,
        List.dropWhile_cons_of_neg (by simp), List.takeWhile_cons_of_neg (by simp)]
      cases hrest : stem.toList.reverse with
      | nil => exact absurd (by simpa using hrest) hstem
      | cons c rest => simp

/-! ## Relative paths -/

theorem partOfPiece?_eq_some {piece : List Char} {part : PathPart}
    (h : partOfPiece? piece = some part) : part ≠ .root ∧ part ≠ .here := by
  unfold partOfPiece? at h
  split at h
  · cases h
  · split at h <;> cases h <;> simp

theorem filter_parts (path : String) :
    (parts path).filter (fun p => p != .root && p != .here) =
      (pieces path.toList).filterMap partOfPiece? := by
  have hfront : (front path.toList).filter (fun p => p != .root && p != .here) = [] := by
    unfold front
    split
    · simp
    · split <;> simp
  rw [parts_eq, List.filter_append, hfront, List.nil_append, List.filter_eq_self]
  intro part hpart
  obtain ⟨piece, -, hpiece⟩ := List.mem_filterMap.mp hpart
  simpa using partOfPiece?_eq_some hpiece

theorem parts_ne_nil {path : String} (h : path ≠ "") : parts path ≠ [] := by
  intro hparts
  rw [parts_eq, List.append_eq_nil_iff] at hparts
  obtain ⟨hfront, hpieces⟩ := hparts
  cases hpath : path.toList with
  | nil => exact h (by simpa using hpath)
  | cons c cs =>
    rw [hpath] at hfront hpieces
    by_cases hc : c = '/'
    · simp [front, hc] at hfront
    · obtain ⟨piece, more, hsplit⟩ := List.exists_cons_of_ne_nil (pieces_ne_nil cs)
      simp only [front, pieces, hc, hsplit, if_false] at hfront hpieces
      have hnone := List.filterMap_eq_nil_iff.mp hpieces (c :: piece) List.mem_cons_self
      have hhere : c :: piece ≠ ['.'] := by
        intro heq
        obtain ⟨rfl, rfl⟩ := List.cons.inj heq
        simp at hfront
      unfold partOfPiece? at hnone
      rw [if_neg (by simp [hhere])] at hnone
      split at hnone <;> cases hnone

theorem pieces_foldl_join {root : String} {c : Char} (hroot : root.toList.getLast? = some c)
    (hc : c ≠ '/') {names : List String} (h : ∀ name ∈ names, IsEntryName name) :
    pieces (names.foldl join root).toList = pieces root.toList ++ names.map String.toList := by
  rw [foldl_join_eq hroot hc h, pieces_intercalate h]

/-- Behind the pieces that count as those of the directory stand the names. -/
theorem exists_pieces_foldl_join {root : String} (hroot : root ≠ "") {names : List String}
    (h : ∀ name ∈ names, IsEntryName name) (hne : names ≠ []) :
    ∃ before, pieces (names.foldl join root).toList = before ++ names.map String.toList ∧
      before.filterMap partOfPiece? = (pieces root.toList).filterMap partOfPiece? := by
  rcases List.eq_nil_or_concat' root.toList with hnil | ⟨xs, c, hlist⟩
  · exact absurd (by simpa using hnil) hroot
  · by_cases hc : c = '/'
    · obtain ⟨name, names, rfl⟩ := List.exists_cons_of_ne_nil hne
      obtain ⟨hname, hnames⟩ := List.forall_mem_cons.mp h
      obtain ⟨d, hlast, hd⟩ := exists_getLast_name hname
      have hjoin : (join root name).toList = xs ++ '/' :: name.toList := by
        simp [join, hlist, hc]
      refine ⟨pieces xs, ?_, ?_⟩
      · rw [List.foldl_cons, pieces_foldl_join ((getLast?_join hname).trans hlast) hd hnames, hjoin,
          pieces_append_slash, pieces_of_not_mem hname.1]
        simp
      · rw [hlist, hc, pieces_append_slash, List.filterMap_append]
        simp [pieces, partOfPiece?]
    · exact ⟨_, pieces_foldl_join (by simp [hlist]) hc h, rfl⟩

/-- Only pieces that count for nothing are left of those that are dropped. -/
theorem dropParts_append (ps rest : List (List Char)) : ∃ void,
    (∀ piece ∈ void, partOfPiece? piece = none) ∧
      dropParts (ps.filterMap partOfPiece?).length (ps ++ rest) = void ++ rest := by
  induction ps with
  | nil => exact ⟨[], by simp, by simp [dropParts]⟩
  | cons piece ps ih =>
    obtain ⟨void, hvoid, hdrop⟩ := ih
    cases hpiece : partOfPiece? piece with
    | some part => exact ⟨void, hvoid, by simp [hpiece, dropParts, hdrop]⟩
    | none =>
      rw [List.filterMap_cons_none hpiece]
      cases hcount : (ps.filterMap partOfPiece?).length with
      | zero =>
        have hnone := List.filterMap_eq_nil_iff.mp (List.length_eq_zero_iff.mp hcount)
        exact ⟨piece :: ps, by simpa [hpiece] using hnone, by simp [dropParts]⟩
      | succ count =>
        refine ⟨void, hvoid, ?_⟩
        rw [← hdrop, hcount, List.cons_append, dropParts, hpiece]
        rfl

theorem trimPieces_append {void rest : List (List Char)}
    (hvoid : ∀ piece ∈ void, partOfPiece? piece = none)
    (hrest : ∀ piece ∈ rest, (partOfPiece? piece).isSome) : trimPieces (void ++ rest) = rest := by
  have hkeep : ∀ {ps : List (List Char)}, (∀ piece ∈ ps, (partOfPiece? piece).isSome) →
      ps.dropWhile (fun piece => (partOfPiece? piece).isNone) = ps := by
    intro ps hps
    cases ps with
    | nil => rfl
    | cons piece ps =>
      rw [List.dropWhile_cons_of_neg]
      simpa [Option.isSome_iff_ne_none] using hps piece List.mem_cons_self
  unfold trimPieces
  dsimp only
  rw [List.dropWhile_append_of_pos (by simpa using hvoid), hkeep hrest, hkeep (by simpa using hrest),
    List.reverse_reverse]

/-- The path of an entry below a directory is relative to it by the names that lead there. -/
theorem relativeTo?_foldl_join {root : String} (hroot : root ≠ "") {names : List String}
    (h : ∀ name ∈ names, IsEntryName name) (hne : names ≠ []) :
    relativeTo? (names.foldl join root) root = some (String.intercalate "/" names) := by
  obtain ⟨before, hpieces, hbefore⟩ := exists_pieces_foldl_join hroot h hne
  obtain ⟨void, hvoid, hdrop⟩ := dropParts_append before (names.map String.toList)
  have hparts : (parts root).isPrefixOf (parts (names.foldl join root)) = true := by
    rw [List.isPrefixOf_iff_prefix, parts_foldl_join h]
    exact List.prefix_append ..
  have hrest : ∀ piece ∈ names.map String.toList, (partOfPiece? piece).isSome := by
    intro piece hpiece
    obtain ⟨name, hname, rfl⟩ := List.mem_map.mp hpiece
    simp [partOfPiece?_name (h name hname)]
  have hcount : ((parts root).filter fun p => p != .root && p != .here).length =
      (before.filterMap partOfPiece?).length := by
    rw [filter_parts, hbefore]
  unfold relativeTo?
  rw [if_pos hparts, if_neg (by simpa using parts_ne_nil hroot)]
  dsimp only
  rw [hcount, hpieces, hdrop, trimPieces_append hvoid hrest]
  simp [← String.toList_inj, String.toList_intercalate]

end Path

end InterpolationLint
