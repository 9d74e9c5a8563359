import InterpolationLint.FileTree.Basic

/-!
# Walks over directories

A walk goes through a directory and the directories below it, and through links. It does not enter
hidden directories, and ends where a directory cannot be read, where a link leads nowhere, and where
one leads back to a directory on the way to it.
-/

namespace InterpolationLint

inductive WalkError where
  | refused (path : String) (cause : FileError)
  /-- What a link leads to could not be compared with the directories on the way to it. -/
  | unopened (cause : FileError)
  | loop (path ancestor : String)
deriving DecidableEq, Repr

def WalkError.message : WalkError → String
  | .refused path cause =>
    s!"IO error for operation on {path}: {cause.message}: {cause.message}"
  | .unopened cause => s!"{cause.message}: {cause.message}"
  | .loop path ancestor => s!"File system loop found: {path} points to an ancestor {ancestor}"

def isHiddenName (name : String) : Bool := name.toList.head? = some '.'

namespace FileTree

/-! ## Listings -/

structure Child (tree : FileTree) (place : Place) where
  name : String
  entry : FileEntry
  listed : (place ++ [name], entry) ∈ tree.entries

def nameIn? (place other : Place) : Option String :=
  if other.dropLast = place then other.getLast? else none

theorem nameIn?_eq_some_iff {place other : Place} {name : String} :
    nameIn? place other = some name ↔ other = place ++ [name] := by
  unfold nameIn?
  constructor
  · intro h
    split at h
    · obtain ⟨above, rfl⟩ := List.getLast?_eq_some_iff.mp h
      rename_i hplace
      rw [← hplace, List.dropLast_concat]
    · cases h
  · rintro rfl
    simp

def children (tree : FileTree) (place : Place) : List (tree.Child place) :=
  tree.entries.attach.filterMap fun ⟨(other, entry), h⟩ =>
    match hname : nameIn? place other with
    | some name => some ⟨name, entry, nameIn?_eq_some_iff.mp hname ▸ h⟩
    | none => none

/-! ## One step -/

inductive Visit where
  | directory (place : Place)
  | file
  | other
deriving DecidableEq, Repr

/-- What a link leads to in a walk that has come through the places `above`. A directory is opened
to see whether it is one of them. -/
def visitLink (tree : FileTree) (above : List (Place × String)) (path : String) (target : Place) :
    Except WalkError Visit :=
  match tree.entry? target with
  | some .directory =>
    match tree.refusal? .read target with
    | some cause => .error (.unopened cause)
    | none =>
      match above.lookup target with
      | some ancestor => .error (.loop path ancestor)
      | none => .ok (.directory target)
  | some (.file _) => .ok .file
  | _ => .ok .other

def visit (tree : FileTree) (above : List (Place × String)) {place : Place} (path : String)
    (child : tree.Child place) : Except WalkError Visit :=
  match child.entry with
  | .directory => .ok (.directory (place ++ [child.name]))
  | .file _ => .ok .file
  | .stream _ => .ok .other
  | .link _ =>
    match tree.follow maxLinks place [child.name.toList] with
    | .error cause => .error (.refused path cause)
    | .ok target => tree.visitLink above path target

/-! ## Every walk ends -/

/-- How many directories a walk has not come through. -/
def unmet (tree : FileTree) (above : List (Place × String)) : Nat :=
  ([] :: tree.entries.map Prod.fst).countP fun place => (above.lookup place).isNone

def depth (tree : FileTree) : Nat :=
  tree.entries.foldr (fun entry depth => max entry.1.length depth) 0

theorem length_le_depth {tree : FileTree} {place : Place} {entry : FileEntry}
    (h : (place, entry) ∈ tree.entries) : place.length ≤ tree.depth := by
  unfold depth
  generalize tree.entries = entries at h
  induction entries with
  | nil => cases h
  | cons e rest ih =>
    rw [List.foldr_cons]
    rcases List.mem_cons.mp h with rfl | h
    · exact Nat.le_max_left ..
    · exact Nat.le_trans (ih h) (Nat.le_max_right ..)

section
variable {tree : FileTree} {above : List (Place × String)} {place target : Place} {path : String}

theorem isNone_lookup_cons {other : Place}
    (h : (((target, path) :: above).lookup other).isNone = true) :
    other ≠ target ∧ (above.lookup other).isNone = true := by
  rw [List.lookup_cons] at h
  split at h
  · cases h
  · exact ⟨by simp_all, h⟩

theorem unmet_cons_le : tree.unmet ((target, path) :: above) ≤ tree.unmet above :=
  List.countP_mono_left fun _ _ h => (isNone_lookup_cons h).2

/-- A directory that is new to a walk is one less. -/
theorem unmet_cons_lt (htarget : tree.hasDirectory target = true)
    (hnew : above.lookup target = none) :
    tree.unmet ((target, path) :: above) < tree.unmet above := by
  have hmem : target ∈ [] :: tree.entries.map Prod.fst := by
    rcases mem_of_hasDirectory htarget with rfl | hmem
    · exact List.mem_cons_self
    · exact List.mem_cons_of_mem _ (List.mem_map_of_mem hmem)
  unfold unmet
  obtain ⟨before, after, hsplit⟩ := List.append_of_mem hmem
  have hbefore := @List.countP_mono_left _ (fun place => (((target, path) :: above).lookup place).isNone)
    (fun place => (above.lookup place).isNone) before fun _ _ h => (isNone_lookup_cons h).2
  have hafter := @List.countP_mono_left _ (fun place => (((target, path) :: above).lookup place).isNone)
    (fun place => (above.lookup place).isNone) after fun _ _ h => (isNone_lookup_cons h).2
  rw [hsplit, List.countP_append, List.countP_append, List.countP_cons_of_neg (by simp),
    List.countP_cons_of_pos (by simp [hnew])]
  omega

theorem visit_decreases {child : tree.Child place}
    (h : tree.visit above path child = .ok (.directory target)) :
    tree.unmet ((target, path) :: above) < tree.unmet above ∨
      tree.unmet ((target, path) :: above) = tree.unmet above ∧
        tree.depth - target.length < tree.depth - place.length := by
  unfold visit at h
  split at h
  · cases h
    have hdepth := length_le_depth child.listed
    rw [List.length_append, List.length_singleton] at hdepth
    refine (Nat.lt_or_eq_of_le unmet_cons_le).imp_right fun heq => ⟨heq, ?_⟩
    rw [List.length_append, List.length_singleton]
    omega
  · cases h
  · cases h
  · split at h
    · cases h
    · unfold visitLink at h
      split at h
      · rename_i hentry
        split at h
        · cases h
        · split at h
          · cases h
          · cases h
            refine .inl (unmet_cons_lt ?_ ‹_›)
            simp [hasDirectory, hentry, FileEntry.isDirectory]
      · cases h
      · cases h

end

/-! ## The walk -/

mutual

/-- The paths of the files that a walk finds from a directory on, to which it has come through the
places `above` by a path. -/
def walk (tree : FileTree) (above : List (Place × String)) (place : Place) (path : String) :
    Except WalkError (List String) := do
  (tree.permit .read place).mapError (.refused path)
  let found ← (tree.children place).mapM fun child => tree.walkChild above path child
  return found.flatten
termination_by (tree.unmet above, tree.depth - place.length, 1)

def walkChild (tree : FileTree) (above : List (Place × String)) {place : Place} (path : String)
    (child : tree.Child place) : Except WalkError (List String) :=
  let below := Path.join path child.name
  match _hvisit : tree.visit above below child with
  | .error error => .error error
  | .ok .other => .ok []
  | .ok .file => .ok [below]
  | .ok (.directory target) =>
    if isHiddenName child.name then .ok []
    else do
      (tree.permit .enter place).mapError (.refused below)
      tree.walk ((target, below) :: above) target below
termination_by (tree.unmet above, tree.depth - place.length, 0)
decreasing_by
  rcases visit_decreases _hvisit with hlt | ⟨heq, hlt⟩
  · exact .left _ _ hlt
  · rw [heq]
    exact .right _ (.left _ _ hlt)

end

end FileTree

end InterpolationLint
