import InterpolationLint.Command.Execute
import InterpolationLint.CommandLine.Parse
import InterpolationLint.Config.Readers

/-!
# The program

Reads the arguments, loads the files that the command may look at, carries it out and writes what
it leaves behind.
-/

namespace InterpolationLint

def usageLines : List String :=
  [s!"Usage: {toolName} [-v] lint PATH [-c FILE] [-f pretty|json|sarif] [--show-suppressed]",
   "                   [--fail-level error|warning|info] [-d RULE]...",
   s!"       {toolName} [-v] rules",
   s!"       {toolName} [-v] init [-o FILE]",
   s!"       {toolName} help [COMMAND]"]

def UsageStop.message : UsageStop → String
  | .helpAsked => "help was asked for"
  | .versionAsked => s!"{toolName} {toolVersion}"
  | .nothingAsked => "no command was given"
  | .missingCommand => "a command is required"
  | .missingPath => "a path is required"
  | .unknownCommand => "unrecognized command"
  | .unknownArgument => "unexpected argument"
  | .invalidValue => "a value is required"
  | .unwantedValue => "unexpected value"
  | .repeatedOption => "an option cannot be used multiple times"

def UsageStop.report (stop : UsageStop) : IO Unit := do
  match stop with
  | .helpAsked => IO.print (unlines usageLines)
  | .versionAsked => IO.println stop.message
  | _ => IO.eprint (unlines ([s!"error: {stop.message}", ""] ++ usageLines))

def placeOf (path : String) : Place :=
  (Path.parts path).filterMap fun
    | .name name => some name
    | _ => none

def pathsTo (path : String) : List String :=
  let parts := Path.parts path
  (List.range parts.length).map fun count => Path.ofParts (parts.take (count + 1))

def FileError.ofSystem : IO.Error → FileError
  | .noFileOrDirectory .. => .missing
  | .permissionDenied .. => .denied
  | .inappropriateType .. => .notDirectory
  | error => .other (toString error)

/-! ## Loading files

What a command may look at is put into a tree before it is carried out. Contents are read only of
the config file and of the files that are checked, and what the system refuses is refused in the
tree. -/

def FileEntry.ofType : IO.FS.FileType → FileEntry
  | .dir => .directory
  | .file => .file .empty
  | _ => .stream .empty

def addEntry (tree : FileTree) (place : Place) (entry : FileEntry) : FileTree :=
  if (tree.entry? place).isSome then tree else tree.plant place entry

def observe (tree : FileTree) (place : Place) : IO FileTree := do
  let file := (← IO.currentDir) / FileTree.absolutePath place
  match ← file.symlinkMetadata.toBaseIO with
  | .error (.noFileOrDirectory ..) => return tree
  | .error cause => return tree.refuse .enter place.dropLast (.ofSystem cause)
  | .ok found =>
    if found.type != .symlink then return addEntry tree place (.ofType found.type)
    match ← (IO.FS.realPath file).toBaseIO with
    | .error _ => return addEntry tree place (.link "")
    | .ok real =>
      let .ok target ← real.metadata.toBaseIO | return addEntry tree place (.link "")
      let reached := addEntry tree (placeOf real.toString) (.ofType target.type)
      return addEntry reached place (.link real.toString)

def survey (tree : FileTree) (path : String) : IO FileTree :=
  (pathsTo path).foldlM (fun tree step =>
    match tree.target tree.here step with
    | .ok (some place) => observe tree place
    | _ => pure tree) tree

def descend (tree : FileTree) (start : Place) : IO FileTree := do
  let mut tree := tree
  let mut seen : List Place := []
  let mut pending := [start]
  while !pending.isEmpty do
    let place := pending.headD []
    pending := pending.tail
    if place ∈ seen then continue
    seen := place :: seen
    let directory := (← IO.currentDir) / FileTree.absolutePath place
    match ← directory.readDir.toBaseIO with
    | .error cause => tree := tree.refuse .read place (.ofSystem cause)
    | .ok entries =>
      for entry in entries do
        let name := entry.fileName
        tree ← observe tree (place ++ [name])
        if let .ok target := tree.follow FileTree.maxLinks place [name.toList] then
          if tree.hasDirectory target && !isHiddenName name then pending := target :: pending
  return tree

def fill (tree : FileTree) (path : String) : IO FileTree := do
  let .ok place := tree.resolve path | return tree
  let read := (IO.FS.readBinFile (FileTree.absolutePath place)).toBaseIO
  match tree.entry? place with
  | some (.file _) =>
    match ← read with
    | .ok content => return tree.put place (.file content)
    | .error cause => return tree.refuse .read place (.ofSystem cause)
  | some (.stream _) =>
    match ← read with
    | .ok content => return tree.put place (.stream content)
    | .error cause => return tree.refuse .read place (.ofSystem cause)
  | _ => return tree

def LintRequest.load (request : LintRequest) (bare : FileTree) : IO FileTree := do
  let found ← (request.config.toList ++ configCandidates ++ [request.path]).foldlM survey bare
  let configPath := found.configPath? request.config
  let configured ← configPath.toList.foldlM fill found
  let .ok config := configured.loadConfig .standard configPath | return configured
  let .ok place := configured.resolve request.path | return configured
  let listed ← if configured.hasDirectory place then descend configured place else pure configured
  let .ok files := listed.filesAt globReader config place | return listed
  files.foldlM fill listed

def Command.load (command : Command) : IO FileTree := do
  let here := placeOf (← IO.currentDir).toString
  let bare := (FileTree.bare here).plant here .directory
  match command with
  | .rules => return bare
  | .init output => survey bare output
  | .lint request => request.load bare

/-! ## Leaving files behind -/

def save (before after : FileTree) : IO (Except InitError Unit) := do
  for (place, entry) in before.additions after do
    let path := FileTree.absolutePath place
    match entry with
    | .directory =>
      if let .error cause := ← (IO.FS.createDirAll path).toBaseIO then
        return .error (.noDirectory (.ofSystem cause))
    | .file content =>
      if let .error cause := ← (IO.FS.writeBinFile path content).toBaseIO then
        return .error (.notWritten (.ofSystem cause))
    | _ => continue
  return .ok ()

def Command.perform (command : Command) : IO UInt32 := do
  let before ← command.load
  let result := command.execute .standard (← (← IO.getStdout).isTty) before
  match ← save before result.files with
  | .error error =>
    IO.eprint (unlines error.lines)
    return UInt32.ofNat CommandResult.broken
  | .ok () =>
    IO.print result.output
    IO.eprint result.errorOutput
    return UInt32.ofNat result.exitCode

end InterpolationLint

open InterpolationLint in
def main (arguments : List String) : IO UInt32 := do
  match Command.ofArguments arguments with
  | .error stop =>
    stop.report
    return UInt32.ofNat stop.exitCode
  | .ok command =>
    try command.perform
    catch error =>
      IO.eprintln s!"Error: {error}"
      return UInt32.ofNat CommandResult.broken
