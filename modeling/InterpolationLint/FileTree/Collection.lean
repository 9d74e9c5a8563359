import InterpolationLint.Config.Basic
import InterpolationLint.FileTree.Access
import InterpolationLint.FileTree.Walk

/-!
# The files to check

Of the files that a walk finds those are checked that have the extension of source files and are not
left out by the config. They come in the order of their paths.
-/

namespace InterpolationLint

def sourceExtension : String := "cs"

def Config.checks (readPattern : PatternReader) (config : Config) (root path : String) : Bool :=
  (Path.extension? path).any (sameIgnoringCase · sourceExtension)
    && !config.skips readPattern ((Path.relativeTo? path root).getD path)

namespace FileTree

def filesBelow (tree : FileTree) (root : String) : Except WalkError (List String) :=
  match tree.resolve root with
  | .error cause => .error (.refused root cause)
  | .ok place =>
    match tree.entry? place with
    | some .directory => tree.walk [(place, root)] place root
    | some (.file _) => .ok [root]
    | _ => .ok []

def collect (tree : FileTree) (readPattern : PatternReader) (config : Config) (root : String) :
    Except WalkError (List String) := do
  let found ← tree.filesBelow root
  return (found.filter (config.checks readPattern root)).mergeSort fun a b => (Path.order a b).isLE

end FileTree

end InterpolationLint
