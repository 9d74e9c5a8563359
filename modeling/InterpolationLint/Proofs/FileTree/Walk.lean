import InterpolationLint.FileTree.Walk
import InterpolationLint.Proofs.Except
import InterpolationLint.Proofs.Path
import Mathlib.Data.List.Induction
import Mathlib.Data.List.Nodup

/-!
# What a walk finds

Where there are no links, a walk finds the files that lie in no hidden directory, each once. It fails
if and only if a directory that it enters refuses.
-/

namespace InterpolationLint

namespace FileTree

variable {tree : FileTree} {place : Place}

/-! ## Entries -/

theorem lookup_eq_some_iff_mem {α β : Type} [BEq α] [LawfulBEq α] {entries : List (α × β)}
    (h : (entries.map Prod.fst).Nodup) {key : α} {value : β} :
    entries.lookup key = some value ↔ (key, value) ∈ entries := by
  induction entries with
  | nil => simp
  | cons entry entries ih =>
    obtain ⟨other, old⟩ := entry
    rw [List.map_cons, List.nodup_cons] at h
    by_cases hkey : key = other
    · subst hkey
      have hnot : (key, value) ∉ entries := fun hmem => h.1 (List.mem_map.mpr ⟨_, hmem, rfl⟩)
      simp [hnot, eq_comm]
    · have hne : (key == other) = false := by simpa using hkey
      simp [List.lookup_cons, hne, ih h.2, hkey]

theorem entry?_eq_some_iff {entry : FileEntry} (hplace : place ≠ []) :
    tree.entry? place = some entry ↔ (place, entry) ∈ tree.entries := by
  unfold entry?
  rw [if_neg hplace, lookup_eq_some_iff_mem tree.distinct]

theorem entry?_child {name : String} {entry : FileEntry} :
    tree.entry? (place ++ [name]) = some entry ↔ (place ++ [name], entry) ∈ tree.entries :=
  entry?_eq_some_iff (by simp)

theorem hasDirectory_iff : tree.hasDirectory place = true ↔ tree.entry? place = some .directory := by
  simp [hasDirectory, FileEntry.isDirectory_eq_true_iff, Option.any_eq_true]

/-- Below a place there is something only if it is a directory. -/
theorem hasDirectory_of_below {names : Place} {entry : FileEntry} (hne : names ≠ [])
    (h : tree.entry? (place ++ names) = some entry) : tree.hasDirectory place = true := by
  induction names using List.reverseRecOn generalizing entry with
  | nil => exact absurd rfl hne
  | append_singleton names name ih =>
    rw [entry?_eq_some_iff (by simp)] at h
    obtain ⟨-, hparent⟩ := tree.nested _ h
    rw [← List.append_assoc, List.dropLast_concat] at hparent
    have hdirectory : tree.entry? (place ++ names) = some .directory := by
      rcases hparent with hroot | hmem
      · rw [hroot]
        rfl
      · by_cases hroot : place ++ names = []
        · rw [hroot]
          rfl
        · exact (entry?_eq_some_iff hroot).mpr hmem
    by_cases hnames : names = []
    · rw [hnames, List.append_nil] at hdirectory
      exact hasDirectory_iff.mpr hdirectory
    · exact ih hnames hdirectory

theorem isEntryName_of_below {names : Place} {entry : FileEntry} (hne : names ≠ [])
    (h : tree.entry? (place ++ names) = some entry) : ∀ name ∈ names, IsEntryName name := by
  rw [entry?_eq_some_iff (by simp [hne])] at h
  exact fun name hname => tree.named _ h name (List.mem_append_right place hname)

/-! ## Listings -/

theorem mem_children (child : tree.Child place) : child ∈ tree.children place := by
  unfold children
  rw [List.mem_filterMap]
  refine ⟨⟨_, child.listed⟩, List.mem_attach .., ?_⟩
  have hname := nameIn?_eq_some_iff.mpr (rfl : place ++ [child.name] = _)
  dsimp only
  split
  · rename_i name hsome
    obtain rfl := Option.some.inj (hname.symm.trans hsome)
    rfl
  · rename_i hnone
    rw [hname] at hnone
    cases hnone

theorem children_pairwise (tree : FileTree) (place : Place) :
    (tree.children place).Pairwise fun a b => a.name ≠ b.name := by
  have hdistinct : tree.entries.attach.Pairwise fun a b => a.val.1 ≠ b.val.1 := by
    have hpairwise := List.pairwise_map.mp tree.distinct
    rwa [← List.attach_map_subtype_val tree.entries, List.pairwise_map] at hpairwise
  apply List.Pairwise.filterMap _ _ hdistinct
  rintro ⟨⟨other, entry⟩, h⟩ ⟨⟨other', entry'⟩, h'⟩ hne child hchild child' hchild' heq
  dsimp only at hchild hchild' hne
  split at hchild
  · split at hchild'
    · cases hchild
      cases hchild'
      rename_i hname _ hname'
      apply hne
      rw [nameIn?_eq_some_iff.mp hname, nameIn?_eq_some_iff.mp hname']
      exact congrArg (fun name => place ++ [name]) heq
    · cases hchild'
  · cases hchild

/-- What holds at a place whenever it holds at the directories in it holds at every place. -/
theorem downward (tree : FileTree) {motive : Place → Prop}
    (step : ∀ place, (∀ child : tree.Child place, motive (place ++ [child.name])) → motive place)
    (place : Place) : motive place :=
  step place fun child => downward tree step (place ++ [child.name])
termination_by tree.depth - place.length
decreasing_by
  have hdepth := length_le_depth child.listed
  rw [List.length_append, List.length_singleton] at hdepth ⊢
  omega

/-! ## One step -/

section
variable {above : List (Place × String)} {path : String} {child : tree.Child place}

theorem walkChild_file {content : ByteArray} (h : child.entry = .file content) :
    tree.walkChild above path child = .ok [Path.join path child.name] := by
  have hvisit : tree.visit above (Path.join path child.name) child = .ok .file := by simp [visit, h]
  unfold walkChild
  grind

theorem walkChild_stream {content : ByteArray} (h : child.entry = .stream content) :
    tree.walkChild above path child = .ok [] := by
  have hvisit : tree.visit above (Path.join path child.name) child = .ok .other := by simp [visit, h]
  unfold walkChild
  grind

theorem walkChild_hidden (h : child.entry = .directory) (hhidden : isHiddenName child.name = true) :
    tree.walkChild above path child = .ok [] := by
  have hvisit : tree.visit above (Path.join path child.name) child =
      .ok (.directory (place ++ [child.name])) := by simp [visit, h]
  unfold walkChild
  grind

theorem walkChild_directory (h : child.entry = .directory)
    (hvisible : isHiddenName child.name = false) :
    tree.walkChild above path child =
      ((tree.permit .enter place).mapError (.refused (Path.join path child.name)) >>= fun _ =>
        tree.walk ((place ++ [child.name], Path.join path child.name) :: above)
          (place ++ [child.name]) (Path.join path child.name)) := by
  have hvisit : tree.visit above (Path.join path child.name) child =
      .ok (.directory (place ++ [child.name])) := by simp [visit, h]
  rw [walkChild]
  grind

end

theorem walk_eq_ok_iff {above : List (Place × String)} {path : String} {files : List String} :
    tree.walk above place path = .ok files ↔ tree.refusal? .read place = none ∧
      ∃ found, (tree.children place).mapM (tree.walkChild above path) = .ok found ∧
        found.flatten = files := by
  rw [walk, permit]
  cases tree.refusal? .read place with
  | some cause => simp [Except.mapError, bind, Except.bind]
  | none =>
    cases (tree.children place).mapM (tree.walkChild above path) <;>
      simp [Except.mapError, bind, Except.bind, pure, Except.pure]

theorem permit_bind_eq_ok_iff {use : FileUse} {wrap : FileError → WalkError}
    {next : Except WalkError (List String)} {files : List String} :
    (((tree.permit use place).mapError wrap) >>= fun _ => next) = .ok files ↔
      tree.refusal? use place = none ∧ next = .ok files := by
  unfold permit
  cases tree.refusal? use place <;> simp [Except.mapError, bind, Except.bind]

/-! ## Where a walk comes through -/

def Linkless (tree : FileTree) (place : Place) : Prop :=
  ∀ names path, tree.entry? (place ++ names) ≠ some (.link path)

/-- No directory refuses that a walk from a place on enters. -/
def Opens (tree : FileTree) (place : Place) : Prop :=
  ∀ names, tree.hasDirectory (place ++ names) = true →
    (∀ name ∈ names, isHiddenName name = false) →
    tree.refusal? .read (place ++ names) = none ∧
      (names ≠ [] → tree.refusal? .enter (place ++ names.dropLast) = none)

theorem Linkless.below (h : tree.Linkless place) (name : String) :
    tree.Linkless (place ++ [name]) := by
  intro names path
  rw [List.append_assoc]
  exact h _ path

theorem Linkless.entry_ne (h : tree.Linkless place) (child : tree.Child place) (path : String) :
    child.entry ≠ .link path := by
  intro hentry
  exact h [child.name] path (hentry ▸ entry?_child.mpr child.listed)

theorem opens_iff (hplace : tree.hasDirectory place = true) : tree.Opens place ↔
    tree.refusal? .read place = none ∧ ∀ child : tree.Child place, child.entry = .directory →
      isHiddenName child.name = false →
        tree.refusal? .enter place = none ∧ tree.Opens (place ++ [child.name]) := by
  constructor
  · intro h
    have hread := (h [] (by simpa using hplace) (by simp)).1
    rw [List.append_nil] at hread
    refine ⟨hread, fun child hentry hvisible => ?_⟩
    have hdirectory := hasDirectory_iff.mpr (hentry ▸ entry?_child.mpr child.listed)
    have henter := (h [child.name] hdirectory (by simpa using hvisible)).2 (by simp)
    refine ⟨by simpa using henter, fun names hbelow hnames => ?_⟩
    rw [List.append_assoc] at hbelow ⊢
    obtain ⟨hread, henter⟩ := h _ hbelow (List.forall_mem_cons.mpr ⟨hvisible, hnames⟩)
    refine ⟨hread, fun hne => ?_⟩
    have henter := henter (by simp)
    rwa [List.singleton_append, List.dropLast_cons_of_ne_nil hne, ← List.singleton_append,
      ← List.append_assoc] at henter
  · rintro ⟨hread, hchildren⟩ names hbelow hnames
    cases names with
    | nil => exact ⟨by simpa using hread, by simp⟩
    | cons name names =>
      obtain ⟨hvisible, hnames⟩ := List.forall_mem_cons.mp hnames
      have hbelow' : tree.hasDirectory (place ++ [name] ++ names) = true := by simpa using hbelow
      have hname : tree.hasDirectory (place ++ [name]) = true := by
        by_cases hne : names = []
        · simpa [hne] using hbelow'
        · exact hasDirectory_of_below hne (hasDirectory_iff.mp hbelow')
      obtain ⟨henter, hopens⟩ :=
        hchildren ⟨name, _, entry?_child.mp (hasDirectory_iff.mp hname)⟩ rfl hvisible
      obtain ⟨hread, hdeeper⟩ := hopens names hbelow' hnames
      refine ⟨by simpa using hread, fun _ => ?_⟩
      by_cases hne : names = []
      · simpa [hne] using henter
      · rw [List.dropLast_cons_of_ne_nil hne]
        simpa using hdeeper hne

/-- A walk comes to its end if and only if no directory on its way refuses. -/
theorem exists_walk_eq_ok_iff : ∀ (above : List (Place × String)) (path : String),
    tree.hasDirectory place = true → tree.Linkless place →
      ((∃ files, tree.walk above place path = .ok files) ↔ tree.Opens place) := by
  induction place using tree.downward with
  | step place ih =>
    intro above path hplace hlinks
    rw [opens_iff hplace]
    have hchild : ∀ child : tree.Child place,
        (∃ part, tree.walkChild above path child = .ok part) ↔
          (child.entry = .directory → isHiddenName child.name = false →
            tree.refusal? .enter place = none ∧ tree.Opens (place ++ [child.name])) := by
      intro child
      cases hentry : child.entry with
      | file content => simp [walkChild_file hentry]
      | stream content => simp [walkChild_stream hentry]
      | link target => exact absurd hentry (hlinks.entry_ne child target)
      | directory =>
        cases hhidden : isHiddenName child.name with
        | true => simp [walkChild_hidden hentry hhidden]
        | false =>
          have hdirectory := hasDirectory_iff.mpr (hentry ▸ entry?_child.mpr child.listed)
          simp only [walkChild_directory hentry hhidden, permit_bind_eq_ok_iff, exists_and_left,
            ih child _ _ hdirectory (hlinks.below _), true_implies]
    constructor
    · rintro ⟨files, h⟩
      obtain ⟨hread, found, hfound, -⟩ := walk_eq_ok_iff.mp h
      have hparts := exists_mapM_eq_ok_iff.mp ⟨found, hfound⟩
      exact ⟨hread, fun child => (hchild child).mp (hparts child (mem_children child))⟩
    · rintro ⟨hread, h⟩
      obtain ⟨found, hfound⟩ := exists_mapM_eq_ok_iff.mpr fun child _ => (hchild child).mpr (h child)
      exact ⟨_, walk_eq_ok_iff.mpr ⟨hread, found, hfound, rfl⟩⟩

/-! ## What is found -/

/-- Names lead from a place to a file, and through no hidden directory. -/
structure Finds (tree : FileTree) (place names : Place) : Prop where
  ne_nil : names ≠ []
  file : ∃ content, tree.entry? (place ++ names) = some (.file content)
  visible : ∀ name ∈ names.dropLast, isHiddenName name = false

theorem Finds.isEntryName {names : Place} (h : tree.Finds place names) :
    ∀ name ∈ names, IsEntryName name := by
  obtain ⟨content, hfile⟩ := h.file
  exact isEntryName_of_below h.ne_nil hfile

section
variable {child : tree.Child place} {names : Place}

theorem Finds.entry_eq (h : tree.Finds place (child.name :: names)) :
    names = [] ∧ (∃ content, child.entry = .file content) ∨
      names ≠ [] ∧ child.entry = .directory := by
  obtain ⟨content, hfile⟩ := h.file
  have hentry := entry?_child.mpr child.listed
  by_cases hne : names = []
  · rw [hne, hentry] at hfile
    exact .inl ⟨hne, content, Option.some.inj hfile⟩
  · rw [← List.singleton_append, ← List.append_assoc] at hfile
    have hdirectory := hasDirectory_iff.mp (hasDirectory_of_below hne hfile)
    exact .inr ⟨hne, Option.some.inj (hentry.symm.trans hdirectory)⟩

theorem finds_of_file {content : ByteArray} (h : child.entry = .file content) :
    tree.Finds place (child.name :: names) ↔ names = [] := by
  constructor
  · intro hfinds
    rcases hfinds.entry_eq with ⟨hnames, -⟩ | ⟨-, hentry⟩
    · exact hnames
    · rw [h] at hentry
      cases hentry
  · rintro rfl
    exact ⟨by simp, ⟨content, h ▸ entry?_child.mpr child.listed⟩, by simp⟩

theorem finds_of_directory (h : child.entry = .directory) :
    tree.Finds place (child.name :: names) ↔
      isHiddenName child.name = false ∧ tree.Finds (place ++ [child.name]) names := by
  constructor
  · intro hfinds
    rcases hfinds.entry_eq with ⟨-, content, hentry⟩ | ⟨hne, -⟩
    · rw [h] at hentry
      cases hentry
    · obtain ⟨-, hfile, hvisible⟩ := hfinds
      rw [List.dropLast_cons_of_ne_nil hne] at hvisible
      obtain ⟨hname, hvisible⟩ := List.forall_mem_cons.mp hvisible
      exact ⟨hname, hne, by simpa using hfile, hvisible⟩
  · rintro ⟨hname, hne, hfile, hvisible⟩
    refine ⟨by simp, by simpa using hfile, ?_⟩
    rw [List.dropLast_cons_of_ne_nil hne]
    exact List.forall_mem_cons.mpr ⟨hname, hvisible⟩

end

/-- The names of what is found begin with that of an entry. -/
theorem exists_finds_iff {p : Place → Prop} : (∃ names, tree.Finds place names ∧ p names) ↔
    ∃ child : tree.Child place, ∃ names, tree.Finds place (child.name :: names) ∧
      p (child.name :: names) := by
  constructor
  · rintro ⟨names, hfinds, hp⟩
    obtain ⟨content, hfile⟩ := hfinds.file
    obtain ⟨name, names, rfl⟩ := List.exists_cons_of_ne_nil hfinds.ne_nil
    have hentry : ∃ entry, tree.entry? (place ++ [name]) = some entry := by
      by_cases hne : names = []
      · exact ⟨_, by simpa [hne] using hfile⟩
      · rw [← List.singleton_append, ← List.append_assoc] at hfile
        exact ⟨_, hasDirectory_iff.mp (hasDirectory_of_below hne hfile)⟩
    obtain ⟨entry, hentry⟩ := hentry
    exact ⟨⟨name, entry, entry?_child.mp hentry⟩, names, hfinds, hp⟩
  · rintro ⟨child, names, h⟩
    exact ⟨_, h⟩

section
variable {above : List (Place × String)} {path found : String} {files : List String}

/-- An entry has nothing that a walk finds, is a file, or is a directory that a walk enters. -/
theorem walkChild_cases {child : tree.Child place} (hlinks : tree.Linkless place)
    (h : tree.walkChild above path child = .ok files) :
    (files = [] ∧ ∀ names, ¬tree.Finds place (child.name :: names)) ∨
    (files = [Path.join path child.name] ∧
      ∀ names, tree.Finds place (child.name :: names) ↔ names = []) ∨
    (tree.walk ((place ++ [child.name], Path.join path child.name) :: above)
        (place ++ [child.name]) (Path.join path child.name) = .ok files ∧
      ∀ names, tree.Finds place (child.name :: names) ↔
        tree.Finds (place ++ [child.name]) names) := by
  cases hentry : child.entry with
  | link target => exact absurd hentry (hlinks.entry_ne child target)
  | file content =>
    rw [walkChild_file hentry] at h
    cases h
    exact .inr (.inl ⟨rfl, fun names => finds_of_file hentry⟩)
  | stream content =>
    rw [walkChild_stream hentry] at h
    cases h
    refine .inl ⟨rfl, fun names hfinds => ?_⟩
    rcases hfinds.entry_eq with ⟨-, _, heq⟩ | ⟨-, heq⟩ <;> simp [hentry] at heq
  | directory =>
    cases hhidden : isHiddenName child.name with
    | true =>
      rw [walkChild_hidden hentry hhidden] at h
      cases h
      exact .inl ⟨rfl, fun names => by simp [finds_of_directory hentry, hhidden]⟩
    | false =>
      rw [walkChild_directory hentry hhidden, permit_bind_eq_ok_iff] at h
      exact .inr (.inr ⟨h.2, fun names => by simp [finds_of_directory hentry, hhidden]⟩)

/-- What a walk finds by an entry, if it finds below it what is there. -/
theorem mem_walkChild {child : tree.Child place} (hlinks : tree.Linkless place)
    (hbelow : ∀ above path files, tree.walk above (place ++ [child.name]) path = .ok files →
      (found ∈ files ↔ ∃ names, tree.Finds (place ++ [child.name]) names ∧
        found = names.foldl Path.join path))
    (h : tree.walkChild above path child = .ok files) :
    found ∈ files ↔ ∃ names, tree.Finds place (child.name :: names) ∧
      found = (child.name :: names).foldl Path.join path := by
  rcases walkChild_cases hlinks h with ⟨rfl, hfinds⟩ | ⟨rfl, hfinds⟩ | ⟨hwalk, hfinds⟩
  · simp [hfinds]
  · simp [hfinds]
  · simp only [hfinds, hbelow _ _ _ hwalk, List.foldl_cons]

theorem mem_walk (hlinks : tree.Linkless place) : ∀ {above path files},
    tree.walk above place path = .ok files →
      (found ∈ files ↔ ∃ names, tree.Finds place names ∧ found = names.foldl Path.join path) := by
  induction place using tree.downward with
  | step place ih =>
    intro above path files h
    obtain ⟨-, parts, hparts, rfl⟩ := walk_eq_ok_iff.mp h
    have hchild := fun child part =>
      @mem_walkChild _ _ above path found part child hlinks fun _ _ _ => ih child (hlinks.below _)
    rw [mem_flatten_of_mapM_eq_ok hparts, exists_finds_iff]
    constructor
    · rintro ⟨child, -, part, hpart, hmem⟩
      exact ⟨child, (hchild child part hpart).mp hmem⟩
    · rintro ⟨child, hfinds⟩
      obtain ⟨part, -, hpart⟩ := exists_of_mapM_eq_ok hparts child (mem_children child)
      exact ⟨child, mem_children child, part, hpart, (hchild child part hpart).mpr hfinds⟩

/-- A walk finds nothing twice. -/
theorem nodup_walk (hlinks : tree.Linkless place) : ∀ {above path files},
    tree.walk above place path = .ok files → files.Nodup := by
  induction place using tree.downward with
  | step place ih =>
    intro above path files h
    obtain ⟨-, parts, hparts, rfl⟩ := walk_eq_ok_iff.mp h
    rw [List.nodup_flatten]
    constructor
    · intro part hpart
      obtain ⟨child, -, hchild⟩ := mem_of_mapM_eq_ok hparts part hpart
      rcases walkChild_cases hlinks hchild with ⟨rfl, -⟩ | ⟨rfl, -⟩ | ⟨hwalk, -⟩
      · exact List.nodup_nil
      · exact List.nodup_singleton _
      · exact ih child (hlinks.below _) hwalk
    · -- paths by different entries differ in the part behind those of the directory
      apply pairwise_of_mapM_eq_ok (children_pairwise tree place) _ hparts
      intro a b hne u v hu hv found hfoundu hfoundv
      have hmem := fun child part => @mem_walkChild _ _ above path found part child hlinks
        fun _ _ _ => mem_walk (hlinks.below _)
      obtain ⟨names, hfinds, heq⟩ := (hmem a u hu).mp hfoundu
      obtain ⟨names', hfinds', heq'⟩ := (hmem b v hv).mp hfoundv
      have hparts := congrArg Path.parts (heq.symm.trans heq')
      rw [Path.parts_foldl_join hfinds.isEntryName, Path.parts_foldl_join hfinds'.isEntryName] at hparts
      simp only [List.map_cons, List.append_cancel_left_eq, List.cons.injEq, PathPart.name.injEq]
        at hparts
      exact hne hparts.1

end

end FileTree

end InterpolationLint
