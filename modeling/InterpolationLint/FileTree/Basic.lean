import InterpolationLint.Path

/-!
# File trees

Directories, files and links below one root, each at its place, and the directory in which relative
paths begin. Paths are followed piece by piece, through directories and links. What is asked of an
entry may be refused.
-/

namespace InterpolationLint

inductive FileError where
  | missing
  | denied
  | occupied
  | notDirectory
  | isDirectory
  | tooManyLinks
  | notText
  | other (message : String)
deriving DecidableEq, Repr

def FileError.message : FileError → String
  | .missing => "No such file or directory (os error 2)"
  | .denied => "Permission denied (os error 13)"
  | .occupied => "File exists (os error 17)"
  | .notDirectory => "Not a directory (os error 20)"
  | .isDirectory => "Is a directory (os error 21)"
  | .tooManyLinks => "Too many levels of symbolic links (os error 40)"
  | .notText => "stream did not contain valid UTF-8"
  | .other message => message

/-- Names from the root down. -/
abbrev Place := List String

inductive FileEntry where
  | directory
  | file (content : ByteArray)
  | link (path : String)
  /-- Anything else, such as a pipe. -/
  | stream (content : ByteArray)

namespace FileEntry

def isDirectory : FileEntry → Bool
  | directory => true
  | _ => false

def isFile : FileEntry → Bool
  | file _ => true
  | _ => false

theorem isDirectory_eq_true_iff {entry : FileEntry} :
    entry.isDirectory = true ↔ entry = .directory := by
  cases entry <;> simp [isDirectory]

end FileEntry

inductive FileUse where
  /-- What is in a file, or which entries are in a directory. -/
  | read
  /-- To go through a directory. -/
  | enter
  /-- To put a new entry into a directory. -/
  | extend
deriving DecidableEq, Repr

def setEntry (place : Place) (entry : FileEntry) :
    List (Place × FileEntry) → List (Place × FileEntry)
  | [] => [(place, entry)]
  | (other, old) :: rest =>
    if other = place then (place, entry) :: rest
    else (other, old) :: setEntry place entry rest

section
variable {entries : List (Place × FileEntry)} {place : Place} {entry : FileEntry}

theorem fst_setEntry (place : Place) (entry : FileEntry) (entries : List (Place × FileEntry)) :
    (setEntry place entry entries).map Prod.fst =
      if place ∈ entries.map Prod.fst then entries.map Prod.fst
      else entries.map Prod.fst ++ [place] := by
  induction entries with
  | nil => rfl
  | cons e rest ih =>
    obtain ⟨other, old⟩ := e
    by_cases h : other = place
    · simp [setEntry, h]
    · have h' : place ≠ other := fun e => h e.symm
      simp only [setEntry, h, if_false, List.map_cons, ih, List.mem_cons, h', false_or]
      split <;> simp

theorem nodup_setEntry (place : Place) (entry : FileEntry)
    (distinct : (entries.map Prod.fst).Nodup) :
    ((setEntry place entry entries).map Prod.fst).Nodup := by
  rw [fst_setEntry]
  split
  case isTrue => exact distinct
  case isFalse h =>
    refine List.nodup_append.2 ⟨distinct, by simp, ?_⟩
    intro a ha b hb
    rw [List.mem_singleton] at hb
    exact fun e => h (hb ▸ e ▸ ha)

theorem mem_of_mem_setEntry {other : Place × FileEntry} (h : other ∈ setEntry place entry entries) :
    other = (place, entry) ∨ other ∈ entries := by
  induction entries with
  | nil => simpa [setEntry] using h
  | cons e rest ih =>
    unfold setEntry at h
    split at h <;> grind

theorem mem_setEntry_of_ne {other : Place × FileEntry} (hne : other.1 ≠ place)
    (h : other ∈ entries) : other ∈ setEntry place entry entries := by
  induction entries with
  | nil => cases h
  | cons e rest ih =>
    unfold setEntry
    split <;> grind

theorem mem_of_lookup_eq_some (h : entries.lookup place = some entry) : (place, entry) ∈ entries := by
  induction entries with
  | nil => cases h
  | cons e rest ih =>
    rw [List.lookup_cons] at h
    split at h <;> grind

end

structure FileTree where
  entries : List (Place × FileEntry)
  /-- The directory in which relative paths begin. -/
  here : Place
  refusals : List ((FileUse × Place) × FileError)
  /-- No place has two entries. -/
  distinct : (entries.map Prod.fst).Nodup
  named : ∀ entry ∈ entries, ∀ name ∈ entry.1, IsEntryName name
  /-- Every entry is in a directory. -/
  nested : ∀ entry ∈ entries, entry.1 ≠ [] ∧
    (entry.1.dropLast = [] ∨ (entry.1.dropLast, FileEntry.directory) ∈ entries)

namespace FileTree

def bare (here : Place) : FileTree := ⟨[], here, [], List.nodup_nil, by simp, by simp⟩

/-- What is at a place. The root is a directory. -/
def entry? (tree : FileTree) (place : Place) : Option FileEntry :=
  if place = [] then some .directory else tree.entries.lookup place

def hasDirectory (tree : FileTree) (place : Place) : Bool :=
  (tree.entry? place).any FileEntry.isDirectory

theorem mem_of_hasDirectory {tree : FileTree} {place : Place}
    (h : tree.hasDirectory place = true) :
    place = [] ∨ (place, FileEntry.directory) ∈ tree.entries := by
  by_cases hplace : place = []
  · exact .inl hplace
  · simp only [hasDirectory, entry?, hplace, if_false, Option.any_eq_true,
      FileEntry.isDirectory_eq_true_iff] at h
    obtain ⟨_, h, rfl⟩ := h
    exact .inr (mem_of_lookup_eq_some h)

/-- An entry can be put at a place in a directory with nothing below it. -/
def Admits (tree : FileTree) (place : Place) : Prop :=
  place ≠ [] ∧ (∀ name ∈ place, IsEntryName name) ∧ tree.hasDirectory place.dropLast = true ∧
    ∀ entry ∈ tree.entries, entry.1.dropLast ≠ place

instance (tree : FileTree) : DecidablePred tree.Admits := fun _ =>
  inferInstanceAs (Decidable (_ ∧ _ ∧ _ ∧ _))

def put (tree : FileTree) (place : Place) (entry : FileEntry) : FileTree :=
  if h : tree.Admits place then
    { tree with
      entries := setEntry place entry tree.entries
      distinct := nodup_setEntry place entry tree.distinct
      named := by
        intro other hother
        rcases mem_of_mem_setEntry hother with rfl | hother
        · exact h.2.1
        · exact tree.named other hother
      nested := by
        obtain ⟨hplace, -, hdirectory, hbelow⟩ := h
        intro other hother
        rcases mem_of_mem_setEntry hother with rfl | hother
        · refine ⟨hplace, (mem_of_hasDirectory hdirectory).imp_right fun hmem => ?_⟩
          apply mem_setEntry_of_ne _ hmem
          intro heq
          have hlength := congrArg List.length heq
          rw [List.length_dropLast] at hlength
          have hpos := List.length_pos_iff.mpr hplace
          omega
        · obtain ⟨hne, hparent⟩ := tree.nested other hother
          exact ⟨hne, hparent.imp_right (mem_setEntry_of_ne (hbelow other hother))⟩ }
  else tree

/-- Puts an entry at a place after the directories on the way to it that are not there yet. -/
def plant (tree : FileTree) (place : Place) (entry : FileEntry) : FileTree :=
  let above := (List.range place.length).map place.take
  let prepared := above.foldl (fun tree directory =>
    if (tree.entry? directory).isNone then tree.put directory .directory else tree) tree
  prepared.put place entry

def refusal? (tree : FileTree) (use : FileUse) (place : Place) : Option FileError :=
  tree.refusals.lookup (use, place)

def permit (tree : FileTree) (use : FileUse) (place : Place) : Except FileError Unit :=
  match tree.refusal? use place with
  | some cause => .error cause
  | none => .ok ()

def refuse (tree : FileTree) (use : FileUse) (place : Place) (cause : FileError) : FileTree :=
  { tree with refusals := ((use, place), cause) :: tree.refusals }

def additions (before after : FileTree) : List (Place × FileEntry) :=
  after.entries.filter fun (place, _) => (before.entry? place).isNone

def origin (directory : Place) (path : String) : Place :=
  match path.toList with
  | '/' :: _ => []
  | _ => directory

/-- Follows the pieces of a path from a place up to the first link, and goes on from there by
`onLink`. -/
def followWith (tree : FileTree) (onLink : Place → List (List Char) → Except FileError Place) :
    Place → List (List Char) → Except FileError Place
  | place, [] => .ok place
  | place, piece :: rest =>
    if !tree.hasDirectory place then .error .notDirectory
    else if piece.isEmpty then tree.followWith onLink place rest
    else
      match tree.refusal? .enter place with
      | some cause => .error cause
      | none =>
        match Path.partOfPiece? piece with
        | some (.name name) =>
          match tree.entry? (place ++ [name]) with
          | none => .error .missing
          | some (.link path) =>
            if path = "" then .error .missing
            else onLink (origin place path) (Path.pieces path.toList ++ rest)
          | some _ => tree.followWith onLink (place ++ [name]) rest
        | some .up => tree.followWith onLink place.dropLast rest
        | _ => tree.followWith onLink place rest

def follow (tree : FileTree) : Nat → Place → List (List Char) → Except FileError Place
  | 0 => tree.followWith fun _ _ => .error .tooManyLinks
  | links + 1 => tree.followWith (tree.follow links)

def maxLinks : Nat := 40

def resolve (tree : FileTree) (path : String) : Except FileError Place :=
  if path = "" then .error .missing
  else tree.follow maxLinks (origin tree.here path) (Path.pieces path.toList)

def absolutePath (place : Place) : String := "/" ++ String.intercalate "/" place

end FileTree

end InterpolationLint
