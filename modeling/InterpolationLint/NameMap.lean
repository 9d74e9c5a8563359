import InterpolationLint.Text.Order

/-!
# Maps from names

Values by their names, each name once and in the order of the names. What is set last under a name
is looked up under it.
-/

namespace InterpolationLint

variable {α : Type}

def insertNamed (name : String) (value : α) : List (String × α) → List (String × α)
  | [] => [(name, value)]
  | (other, old) :: rest =>
    match compare name other with
    | .lt => (name, value) :: (other, old) :: rest
    | .eq => (name, value) :: rest
    | .gt => (other, old) :: insertNamed name value rest

theorem mem_of_mem_insertNamed {name : String} {value : α} {entries : List (String × α)}
    {entry : String × α} (h : entry ∈ insertNamed name value entries) :
    entry.1 = name ∨ entry ∈ entries := by
  fun_induction insertNamed name value entries with
  | case1 => simp_all
  | case2 key old rest hlt => grind
  | case3 key old rest heq => grind
  | case4 key old rest hgt ih => grind

theorem insertNamed_eq_append {name : String} {entries : List (String × α)}
    (h : ∀ entry ∈ entries, entry.1 < name) (value : α) :
    insertNamed name value entries = entries ++ [(name, value)] := by
  induction entries with
  | nil => rfl
  | cons entry entries ih =>
    have hgt : compare name entry.1 = .gt := Std.compare_eq_gt.mpr (h entry List.mem_cons_self)
    simp [insertNamed, hgt, ih fun e he => h e (List.mem_cons_of_mem entry he)]

theorem pairwise_insertNamed {entries : List (String × α)} (name : String) (value : α)
    (h : entries.Pairwise fun a b => a.1 < b.1) :
    (insertNamed name value entries).Pairwise fun a b => a.1 < b.1 := by
  fun_induction insertNamed name value entries with
  | case1 => simp
  | case2 key old rest hlt =>
    have hlt : name < key := Std.compare_eq_lt.mp hlt
    refine List.pairwise_cons.mpr ⟨?_, h⟩
    intro entry hentry
    rcases List.mem_cons.mp hentry with rfl | hentry
    · exact hlt
    · exact String.lt_trans hlt ((List.pairwise_cons.mp h).1 entry hentry)
  | case3 key old rest heq =>
    obtain rfl := Std.compare_eq_iff_eq.mp heq
    exact List.pairwise_cons.mpr (List.pairwise_cons.mp h)
  | case4 key old rest hgt ih =>
    obtain ⟨hkey, hrest⟩ := List.pairwise_cons.mp h
    have hlt : key < name := Std.compare_eq_gt.mp hgt
    refine List.pairwise_cons.mpr ⟨?_, ih hrest⟩
    intro entry hentry
    rcases mem_of_mem_insertNamed hentry with heq | hentry
    · rw [heq]
      exact hlt
    · exact hkey entry hentry

structure NameMap (α : Type) where
  entries : List (String × α)
  ordered : entries.Pairwise fun a b => a.1 < b.1
deriving DecidableEq, Repr

namespace NameMap

def empty : NameMap α := ⟨[], .nil⟩

def get? (map : NameMap α) (name : String) : Option α := map.entries.lookup name

def insert (map : NameMap α) (name : String) (value : α) : NameMap α where
  entries := insertNamed name value map.entries
  ordered := pairwise_insertNamed name value map.ordered

/-- Of several values under a name the last counts. -/
def ofList (entries : List (String × α)) : NameMap α :=
  entries.foldl (fun map entry => map.insert entry.1 entry.2) .empty

theorem entries_foldl_insert {entries : List (String × α)} (map : NameMap α)
    (h : (map.entries ++ entries).Pairwise fun a b => a.1 < b.1) :
    (entries.foldl (fun map entry => map.insert entry.1 entry.2) map).entries =
      map.entries ++ entries := by
  induction entries generalizing map with
  | nil => simp
  | cons entry entries ih =>
    have hlast : ∀ e ∈ map.entries, e.1 < entry.1 := by
      intro e he
      exact (List.pairwise_append.mp h).2.2 e he entry List.mem_cons_self
    have hinsert : (map.insert entry.1 entry.2).entries = map.entries ++ [entry] :=
      insertNamed_eq_append hlast entry.2
    rw [List.foldl_cons, ih, hinsert, List.append_assoc, List.singleton_append]
    rwa [hinsert, List.append_assoc, List.singleton_append]

theorem entries_ofList {entries : List (String × α)}
    (h : entries.Pairwise fun a b => a.1 < b.1) : (ofList entries).entries = entries :=
  entries_foldl_insert .empty h

end NameMap

theorem lookup_cons_eq (name key : String) (value : α) (rest : List (String × α)) :
    ((key, value) :: rest).lookup name = if name = key then some value else rest.lookup name := by
  by_cases h : name = key
  · simp [h]
  · have hbeq : (name == key) = false := by simpa using h
    simp [List.lookup_cons, hbeq, h]

namespace NameMap

theorem get?_insert (map : NameMap α) (name other : String) (value : α) :
    (map.insert name value).get? other = if other = name then some value else map.get? other := by
  show (insertNamed name value map.entries).lookup other =
    if other = name then some value else map.entries.lookup other
  fun_induction insertNamed name value map.entries with
  | case1 => rw [lookup_cons_eq]
  | case2 key old rest hlt => rw [lookup_cons_eq]
  | case3 key old rest heq =>
    obtain rfl := Std.compare_eq_iff_eq.mp heq
    rw [lookup_cons_eq, lookup_cons_eq]
    split <;> rfl
  | case4 key old rest hgt ih =>
    have hne : key ≠ name := by
      rintro rfl
      simp at hgt
    rw [lookup_cons_eq, lookup_cons_eq, ih]
    by_cases hkey : other = key <;> simp [hkey, hne]

theorem findSome?_insert {β : Type} {f : String × α → Option β} {name : String}
    (hname : ∀ value, f (name, value) = none) (map : NameMap α) (value : α) :
    (map.insert name value).entries.findSome? f = map.entries.findSome? f := by
  show (insertNamed name value map.entries).findSome? f = map.entries.findSome? f
  fun_induction insertNamed name value map.entries with
  | case1 => simp [hname]
  | case2 key old rest hlt => simp [hname]
  | case3 key old rest heq =>
    obtain rfl := Std.compare_eq_iff_eq.mp heq
    simp [hname]
  | case4 key old rest hgt ih => simp only [List.findSome?_cons, ih]

end NameMap

end InterpolationLint
