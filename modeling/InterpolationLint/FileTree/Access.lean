import InterpolationLint.FileTree.Basic

/-!
# Reading and writing files

Files are read as texts. New files and directories go into directories that are there, and a path
that ends in a slash or in dots names no new file.
-/

namespace InterpolationLint

namespace FileTree

def entryAt? (tree : FileTree) (path : String) : Option FileEntry :=
  match tree.resolve path with
  | .ok place => tree.entry? place
  | .error _ => none

def isThere (tree : FileTree) (path : String) : Bool := (tree.entryAt? path).isSome

def isDirectory (tree : FileTree) (path : String) : Bool :=
  (tree.entryAt? path).any FileEntry.isDirectory

def isFile (tree : FileTree) (path : String) : Bool := (tree.entryAt? path).any FileEntry.isFile

def readText (tree : FileTree) (path : String) : Except FileError String := do
  let place ← tree.resolve path
  tree.permit .read place
  let content ← match tree.entry? place with
    | some (.file content) | some (.stream content) => .ok content
    | some .directory => .error .isDirectory
    | _ => .error .missing
  match String.fromUTF8? content with
  | some text => .ok text
  | none => .error .notText

/-- The place that a path names for an entry, whether one is there or not. A path that is only
slashes or ends in dots names none. -/
def target (tree : FileTree) (start : Place) (path : String) : Except FileError (Option Place) :=
  if path = "" then .error .missing
  else
    match (Path.pieces path.toList).reverse.dropWhile List.isEmpty with
    | [] => .ok none
    | last :: before => do
      let place ← tree.follow maxLinks (origin start path) before.reverse
      if !tree.hasDirectory place then throw .notDirectory
      tree.permit .enter place
      match Path.partOfPiece? last with
      | some (.name name) => return some (place ++ [name])
      | _ => return none

/-- The place of a file to write. A link to nothing leads on to where the file is made. -/
def fileTarget (tree : FileTree) : Nat → Place → String → Except FileError (Option Place)
  | links, start, path => do
    match ← tree.target start path with
    | none => return none
    | some place =>
      if path.toList.getLast? = some '/' then return none
      match tree.entry? place, links with
      | some (.link _), 0 => throw .tooManyLinks
      | some (.link next), links + 1 => tree.fileTarget links place.dropLast next
      | _, _ => return some place

def makeDirectory (tree : FileTree) (path : String) : Except FileError FileTree := do
  match ← tree.target tree.here path with
  | none => throw .occupied
  | some place =>
    if (tree.entry? place).isSome then throw .occupied
    tree.permit .extend place.dropLast
    return tree.put place .directory

/-- Accepts a failure to make a directory if one is there. -/
def settle (tree : FileTree) (path : String) (error : FileError) : Except FileError FileTree :=
  if tree.isDirectory path then .ok tree else .error error

/-- Makes a directory and those above it. The parts of its path stand in reverse. -/
def makeDirectories (tree : FileTree) : List PathPart → Except FileError FileTree
  | [] => .ok tree
  | last :: above =>
    let path := Path.ofParts (last :: above).reverse
    match tree.makeDirectory path with
    | .ok made => .ok made
    | .error .missing => do
      let prepared ← tree.makeDirectories above
      match prepared.makeDirectory path with
      | .ok made => .ok made
      | .error error => prepared.settle path error
    | .error error => tree.settle path error

def writeText (tree : FileTree) (path text : String) : Except FileError FileTree := do
  match ← tree.fileTarget maxLinks tree.here path with
  | none => throw .isDirectory
  | some place =>
    if tree.hasDirectory place then throw .isDirectory
    tree.permit .extend place.dropLast
    return tree.put place (.file text.toUTF8)

end FileTree

end InterpolationLint
