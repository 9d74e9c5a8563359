import InterpolationLint.Config.Readers
import InterpolationLint.FileTree.Collection
import InterpolationLint.Proofs.FileTree.Walk
import InterpolationLint.Proofs.Outcome.Sort

/-!
# Collected files

Collection is exact. Whatever the tree and the config are, those files are collected that have the
extension of source files, lie in no hidden directory and are not left out by the config, each once
and in the order of their paths. Every pattern of a valid config takes part, however patterns are
read, and patterns only take files away.
-/

namespace InterpolationLint

/-! ## What is collected -/

/-- The names of a file that is to be checked, behind the directory where collection begins. -/
structure Config.Collects (readPattern : PatternReader) (config : Config) (names : Place) :
    Prop where
  extension : ∃ stem extension, names.getLast? = some (stem ++ "." ++ extension) ∧ stem ≠ "" ∧
    sameIgnoringCase extension "cs" = true
  visible : ∀ name ∈ names.dropLast, name.toList.head? ≠ some '.'
  admitted : ∀ pattern ∈ config.excludedPaths,
    readPattern.excludes pattern (String.intercalate "/" names) = false
  handwritten : config.includeGenerated = false →
    (∀ name ∈ names.dropLast, sameIgnoringCase name "obj" = false ∧
      sameIgnoringCase name "bin" = false) ∧
    ∀ name, names.getLast? = some name → ¬".g.cs".toList <:+ name.toList.map Char.toLower ∧
      ¬".designer.cs".toList <:+ name.toList.map Char.toLower

theorem endsIgnoringCase_eq_false_iff {text ending : String} :
    endsIgnoringCase text ending = false ↔ ¬ending.toList <:+ text.toList.map Char.toLower := by
  rw [endsIgnoringCase, ← Bool.not_eq_true, List.isPrefixOf_iff_prefix, List.reverse_prefix]

theorem extension?_same_iff {path : String} :
    (Path.extension? path).any (sameIgnoringCase · sourceExtension) = true ↔
      ∃ stem extension, Path.fileName? path = some (stem ++ "." ++ extension) ∧ stem ≠ "" ∧
        sameIgnoringCase extension "cs" = true := by
  have hdot : ∀ {extension : String}, sameIgnoringCase extension "cs" = true →
      '.' ∉ extension.toList := by
    intro extension hsame hmem
    have hlower : extension.toList.map Char.toLower = ['c', 's'] := by
      simpa [sameIgnoringCase] using hsame
    have : '.' ∈ ['c', 's'] := hlower ▸ List.mem_map_of_mem (f := Char.toLower) hmem
    simp at this
  rw [Option.any_eq_true]
  constructor
  · rintro ⟨extension, hsome, hsame⟩
    obtain ⟨stem, hname, hstem, -⟩ := Path.extension?_eq_some_iff.mp hsome
    exact ⟨stem, extension, hname, hstem, hsame⟩
  · rintro ⟨stem, extension, hname, hstem, hsame⟩
    exact ⟨extension, Path.extension?_eq_some_iff.mpr ⟨stem, hname, hstem, hdot hsame⟩, hsame⟩

section
variable {names : Place} (hnames : ∀ name ∈ names, IsEntryName name) (hne : names ≠ [])
include hnames hne

theorem isGenerated_eq_false_iff : isGenerated (String.intercalate "/" names) = false ↔
    (∀ name ∈ names.dropLast, sameIgnoringCase name "obj" = false ∧
      sameIgnoringCase name "bin" = false) ∧
    ∀ name, names.getLast? = some name → ¬".g.cs".toList <:+ name.toList.map Char.toLower ∧
      ¬".designer.cs".toList <:+ name.toList.map Char.toLower := by
  have hparts := Path.parts_intercalate hnames hne
  unfold isGenerated
  rw [Path.parentParts?_eq hparts hne, @Path.fileName?_eq _ [] names hparts hne]
  obtain ⟨init, last, rfl⟩ := (List.eq_nil_or_concat' names).resolve_left hne
  simp [isBuildDirectory, endsIgnoringCase_eq_false_iff]

theorem collects_iff (readPattern : PatternReader) (config : Config) {root : String}
    (hroot : root ≠ "") : config.Collects readPattern names ↔
      (∀ name ∈ names.dropLast, isHiddenName name = false) ∧
        config.checks readPattern root (names.foldl Path.join root) = true := by
  have hname := Path.fileName?_eq (Path.parts_foldl_join hnames root) hne
  have hgenerated := isGenerated_eq_false_iff hnames hne
  have hextension := @extension?_same_iff (names.foldl Path.join root)
  rw [hname] at hextension
  have hskips : config.skips readPattern (String.intercalate "/" names) = false ↔
      (∀ pattern ∈ config.excludedPaths,
        readPattern.excludes pattern (String.intercalate "/" names) = false) ∧
      (config.includeGenerated = false →
        isGenerated (String.intercalate "/" names) = false) := by
    cases hinclude : config.includeGenerated <;> simp [Config.skips, Config.excludes, hinclude]
  have hvisible : (∀ name ∈ names.dropLast, isHiddenName name = false) ↔
      ∀ name ∈ names.dropLast, name.toList.head? ≠ some '.' := by
    simp [isHiddenName]
  rw [hgenerated] at hskips
  unfold Config.checks
  rw [Path.relativeTo?_foldl_join hroot hnames hne, Option.getD_some, Bool.and_eq_true,
    Bool.not_eq_true', hextension, hskips, hvisible]
  constructor
  · rintro ⟨hextension, hvisible, hadmitted, hhandwritten⟩
    exact ⟨hvisible, hextension, hadmitted, hhandwritten⟩
  · rintro ⟨hvisible, hextension, hadmitted, hhandwritten⟩
    exact ⟨hextension, hvisible, hadmitted, hhandwritten⟩

end

/-! ## Patterns -/

section
variable {readPattern : PatternReader} {config config' : Config}

theorem skips_mono (hgenerated : config'.includeGenerated = config.includeGenerated)
    (hpatterns : config.excludedPaths ⊆ config'.excludedPaths) {path : String}
    (h : config.skips readPattern path = true) : config'.skips readPattern path = true := by
  unfold Config.skips Config.excludes at h ⊢
  rw [hgenerated]
  rw [Bool.or_eq_true] at h ⊢
  refine h.imp_left fun hexcludes => ?_
  obtain ⟨pattern, hpattern, hmatches⟩ := List.any_eq_true.mp hexcludes
  exact List.any_eq_true.mpr ⟨pattern, hpatterns hpattern, hmatches⟩

theorem checks_anti (hgenerated : config'.includeGenerated = config.includeGenerated)
    (hpatterns : config.excludedPaths ⊆ config'.excludedPaths) {root path : String}
    (h : config'.checks readPattern root path = true) :
    config.checks readPattern root path = true := by
  unfold Config.checks at h ⊢
  rw [Bool.and_eq_true, Bool.not_eq_true'] at h ⊢
  refine ⟨h.1, ?_⟩
  rw [← Bool.not_eq_true]
  intro hskips
  rw [skips_mono hgenerated hpatterns hskips] at h
  cases h.2

/-- A valid config has no pattern that could not be read. -/
theorem excludes_of_problem? (h : config.problem? readPattern = none) {pattern : String}
    (hpattern : pattern ∈ config.excludedPaths) : ∃ matchesPath,
      readPattern pattern = .ok matchesPath ∧
        ∀ path, readPattern.excludes pattern path = matchesPath path := by
  have hread := List.findSome?_eq_none_iff.mp (Option.or_eq_none_iff.mp h).2 pattern hpattern
  cases hparse : readPattern pattern with
  | error problem => simp [hparse] at hread
  | ok matchesPath => exact ⟨matchesPath, rfl, fun path => by simp [PatternReader.excludes, hparse]⟩

end

/-! ## Collection -/

namespace FileTree

variable {tree : FileTree} {root : String} {place : Place}

theorem ne_empty_of_resolve (hroot : tree.resolve root = .ok place) : root ≠ "" := by
  rintro rfl
  cases hroot

section
variable (hroot : tree.resolve root = .ok place) (hplace : tree.hasDirectory place = true)
include hroot hplace

theorem collect_eq (readPattern : PatternReader) (config : Config) :
    tree.collect readPattern config root = (tree.walk [(place, root)] place root).map fun found =>
      sortBy Path.order (found.filter (config.checks readPattern root)) := by
  rw [collect, filesBelow, hroot]
  dsimp only
  rw [hasDirectory_iff.mp hplace]
  rfl

end

section
variable {found : List String} (hlinks : tree.Linkless place)
  (hwalk : tree.walk [(place, root)] place root = .ok found)
include hlinks hwalk

theorem sorted_before (p : String → Bool) :
    (sortBy Path.order (found.filter p)).Pairwise Path.Before := by
  have hnodup : (sortBy Path.order (found.filter p)).Nodup :=
    (sortBy_perm _ _).nodup_iff.mpr ((nodup_walk hlinks hwalk).filter p)
  have hfinds : ∀ path ∈ sortBy Path.order (found.filter p),
      ∃ names, tree.Finds place names ∧ path = names.foldl Path.join root := by
    intro path hpath
    have hfound := (List.mem_filter.mp ((sortBy_perm _ _).mem_iff.mp hpath)).1
    exact (mem_walk hlinks hwalk).mp hfound
  refine ((sortBy_pairwise _).and hnodup).imp_of_mem ?_
  rintro a b ha hb ⟨hle, hne⟩
  cases horder : Path.order a b with
  | lt => exact Path.before_of_order_eq_lt horder
  | gt => simp [horder] at hle
  | eq =>
    obtain ⟨names, hnames, rfl⟩ := hfinds a ha
    obtain ⟨names', hnames', rfl⟩ := hfinds b hb
    have hparts : Path.parts (names.foldl Path.join root) =
        Path.parts (names'.foldl Path.join root) := Std.compare_eq_iff_eq.mp horder
    rw [Path.parts_foldl_join hnames.isEntryName, Path.parts_foldl_join hnames'.isEntryName,
      List.append_cancel_left_eq] at hparts
    obtain rfl := (List.map_injective_iff.mpr fun _ _ => PathPart.name.inj) hparts
    exact absurd rfl hne

theorem mem_sorted_iff (hroot : tree.resolve root = .ok place)
    (hplace : tree.hasDirectory place = true) {readPattern : PatternReader} {config : Config}
    {path : String} : path ∈ sortBy Path.order (found.filter (config.checks readPattern root)) ↔
      ∃ names content, tree.entry? (place ++ names) = some (.file content) ∧
        config.Collects readPattern names ∧ path = names.foldl Path.join root := by
  have hne := ne_empty_of_resolve hroot
  rw [(sortBy_perm _ _).mem_iff, List.mem_filter, mem_walk hlinks hwalk]
  constructor
  · rintro ⟨⟨names, hfinds, rfl⟩, hchecks⟩
    obtain ⟨content, hfile⟩ := hfinds.file
    refine ⟨names, content, hfile, ?_, rfl⟩
    exact (collects_iff hfinds.isEntryName hfinds.ne_nil _ _ hne).mpr ⟨hfinds.visible, hchecks⟩
  · rintro ⟨names, content, hfile, hcollects, rfl⟩
    -- what is at the place itself is no file
    have hnames : names ≠ [] := by
      rintro rfl
      rw [List.append_nil, hasDirectory_iff.mp hplace] at hfile
      cases hfile
    have hproper := isEntryName_of_below hnames hfile
    obtain ⟨hvisible, hchecks⟩ := (collects_iff hproper hnames _ _ hne).mp hcollects
    exact ⟨⟨names, ⟨hnames, ⟨content, hfile⟩, hvisible⟩, rfl⟩, hchecks⟩

end

theorem sorted_sublist {found : List String} {p q : String → Bool}
    (h : ∀ path, q path = true → p path = true) :
    (sortBy Path.order (found.filter q)).Sublist (sortBy Path.order (found.filter p)) := by
  have hfilter : found.filter q = (found.filter p).filter q := by
    rw [List.filter_filter]
    apply List.filter_congr
    intro path _
    cases hq : q path <;> simp [h path, hq]
  rw [hfilter, ← filter_sortBy]
  exact List.filter_sublist

/-- Collection is exact at every directory without links below it. It fails if a directory on its
way cannot be read or entered, and has a result otherwise. -/
theorem collect_exact (readPattern : PatternReader) {tree : FileTree} {root : String}
    {place : Place} (hroot : tree.resolve root = .ok place)
    (hplace : tree.hasDirectory place = true) (hlinks : tree.Linkless place) (config : Config) :
    (¬tree.Opens place → ∃ error, tree.collect readPattern config root = .error error) ∧
    (tree.Opens place → ∃ files, tree.collect readPattern config root = .ok files ∧
      files.Pairwise Path.Before ∧ files.Nodup ∧
      (∀ path, path ∈ files ↔
        ∃ names content, tree.entry? (place ++ names) = some (.file content) ∧
          config.Collects readPattern names ∧ path = names.foldl Path.join root) ∧
      (config.problem? readPattern = none → ∀ pattern ∈ config.excludedPaths,
        ∃ matchesPath, readPattern pattern = .ok matchesPath ∧
          ∀ path, readPattern.excludes pattern path = matchesPath path) ∧
      ∀ config' : Config, config'.includeGenerated = config.includeGenerated →
        config.excludedPaths ⊆ config'.excludedPaths →
        ∃ files', tree.collect readPattern config' root = .ok files' ∧ files'.Sublist files ∧
          (config'.excludedPaths ⊆ config.excludedPaths → files' = files)) := by
  have hends := @exists_walk_eq_ok_iff tree place [(place, root)] root hplace hlinks
  have hcollect := collect_eq hroot hplace readPattern
  constructor
  · intro hclosed
    cases hwalk : tree.walk [(place, root)] place root with
    | error error => exact ⟨error, by rw [hcollect, hwalk]; rfl⟩
    | ok found => exact absurd (hends.mp ⟨found, hwalk⟩) hclosed
  · intro hopens
    obtain ⟨found, hwalk⟩ := hends.mpr hopens
    simp only [hcollect, hwalk, Except.map, Except.ok.injEq, exists_eq_left']
    have hbefore := sorted_before hlinks hwalk (config.checks readPattern root)
    refine ⟨hbefore, ?_, fun path => mem_sorted_iff hlinks hwalk hroot hplace, ?_, ?_⟩
    · apply hbefore.imp
      rintro p q hlt rfl
      exact Path.Before.irrefl p hlt
    · intro hvalid pattern hpattern
      exact excludes_of_problem? hvalid hpattern
    · intro config' hgenerated hpatterns
      have hsublist : (sortBy Path.order (found.filter (config'.checks readPattern root))).Sublist
          (sortBy Path.order (found.filter (config.checks readPattern root))) :=
        sorted_sublist fun path => checks_anti hgenerated hpatterns
      refine ⟨hsublist, fun hback => hsublist.antisymm ?_⟩
      exact sorted_sublist fun path => checks_anti hgenerated.symm hback

/-- Of four files below a directory one is in build output, one excluded, and one in a hidden
directory that cannot be read. If another directory cannot be read, there is no result. -/
theorem collect_exact_one_of_four : ∃ (tree : FileTree) (config : Config),
    config.excludedPaths = ["Migrations/**"] ∧
    tree.refusal? .read ["app", ".vs"] = some .denied ∧
    tree.collect globReader config "app" = .ok ["app/Lib/Util.CS"] ∧
    (∀ names ∈ [["obj", "A.cs"], [".vs", "A.cs"], ["Migrations", "A.cs"]],
      ∃ content, tree.entry? ("app" :: names) = some (.file content)) ∧
    ∃ error, (tree.refuse .read ["app", "obj"] .denied).collect globReader config "app" =
      .error error := by
  obtain ⟨tree, htree⟩ : ∃ tree : FileTree,
    tree = ([["Lib", "Util.CS"], ["obj", "A.cs"], [".vs", "A.cs"], ["Migrations", "A.cs"]].foldl
      (fun tree names => tree.plant ("app" :: names) (.file .empty)) (bare [])).refuse
        .read ["app", ".vs"] .denied := ⟨_, rfl⟩
  obtain ⟨config, hconfig⟩ : ∃ config : Config, config = ⟨"", .empty, ["Migrations/**"], false⟩ :=
    ⟨_, rfl⟩
  have hroot : tree.resolve "app" = .ok ["app"] := by
    subst htree
    rfl
  have hplace : tree.hasDirectory ["app"] = true := by
    subst htree
    rfl
  have hkinds : ∀ entry ∈ tree.entries, entry.2 = .directory ∨ entry.2.isFile = true ∧
      entry.1 ∈ [["app", "Lib", "Util.CS"], ["app", "obj", "A.cs"], ["app", ".vs", "A.cs"],
        ["app", "Migrations", "A.cs"]] := by
    have hdecide : ∀ entry ∈ tree.entries, entry.2.isDirectory = true ∨ entry.2.isFile = true ∧
        entry.1 ∈ [["app", "Lib", "Util.CS"], ["app", "obj", "A.cs"], ["app", ".vs", "A.cs"],
          ["app", "Migrations", "A.cs"]] := by
      subst htree
      decide +kernel
    simpa only [FileEntry.isDirectory_eq_true_iff] using hdecide
  have hlinks : tree.Linkless ["app"] := by
    intro names path hentry
    rcases hkinds _ ((entry?_eq_some_iff (by simp)).mp hentry) with hkind | ⟨hkind, -⟩ <;>
      simp [FileEntry.isFile] at hkind
  have hrefusals : tree.refusals = [((.read, ["app", ".vs"]), .denied)] := by
    subst htree
    rfl
  have hopens : tree.Opens ["app"] := by
    intro names _ hvisible
    have hnames : names ≠ [".vs"] := by
      rintro rfl
      exact absurd (hvisible ".vs" List.mem_cons_self) (by decide)
    simp [refusal?, hrefusals, List.lookup_eq_none_iff, hnames]
  have hpattern : globReader.excludes "Migrations/**" "Migrations/A.cs" = true ∧
      globReader.excludes "Migrations/**" "Lib/Util.CS" = false := by decide +kernel
  obtain ⟨files, hfiles, -, hnodup, hmem, -⟩ :=
    (collect_exact globReader hroot hplace hlinks config).2 hopens
  have hone : ∀ path, path ∈ files ↔ path ∈ ["app/Lib/Util.CS"] := by
    intro path
    rw [hmem, List.mem_singleton]
    constructor
    · rintro ⟨names, content, hfile, hcollects, rfl⟩
      have hkind := hkinds _ ((entry?_eq_some_iff (by simp)).mp hfile)
      simp only [List.cons_append, List.nil_append, List.mem_cons, List.cons.injEq, true_and,
        List.not_mem_nil, or_false, reduceCtorEq, false_or] at hkind
      rcases hkind.2 with rfl | rfl | rfl | rfl
      · decide
      · have hbuild := (hcollects.handwritten (by rw [hconfig])).1 "obj" List.mem_cons_self
        exact absurd hbuild.1 (by decide)
      · exact absurd rfl (hcollects.visible ".vs" List.mem_cons_self)
      · have hadmitted := hcollects.admitted "Migrations/**" (by simp [hconfig])
        rw [show String.intercalate "/" ["Migrations", "A.cs"] = "Migrations/A.cs" from rfl,
          hpattern.1] at hadmitted
        cases hadmitted
    · rintro rfl
      refine ⟨["Lib", "Util.CS"], .empty, by subst htree; rfl, ⟨?_, by decide, ?_, ?_⟩, by decide⟩
      · exact ⟨"Util", "CS", by decide, by decide, by decide⟩
      · rw [hconfig]
        simpa using hpattern.2
      · exact fun _ => ⟨by decide, by rintro name ⟨⟩; decide⟩
  obtain rfl := List.perm_singleton.mp
    ((List.perm_ext_iff_of_nodup hnodup (List.nodup_singleton _)).mpr hone)
  refine ⟨tree, config, by rw [hconfig], by simp [refusal?, hrefusals], hfiles, ?_, ?_⟩
  · subst htree
    simp only [List.forall_mem_cons, List.not_mem_nil, false_implies, implies_true, and_true]
    exact ⟨⟨_, rfl⟩, ⟨_, rfl⟩, ⟨_, rfl⟩⟩
  · have hroot : (tree.refuse .read ["app", "obj"] .denied).resolve "app" = .ok ["app"] := by
      subst htree
      rfl
    apply (collect_exact globReader hroot hplace hlinks config).1
    intro hopens
    have hread := (hopens ["obj"] (by subst htree; rfl) (by decide)).1
    simp [refusal?, refuse] at hread

end FileTree

end InterpolationLint
