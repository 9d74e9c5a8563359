import InterpolationLint.Command.Basic
import InterpolationLint.FileTree.Access
import InterpolationLint.Text.Lines
import InterpolationLint.Tool

/-!
# The init command

Writes a first config file, at a path where nothing is yet, and says what to do with it.
-/

namespace InterpolationLint

def configTemplate : String := unlines [
  "# interpcheck configuration",
  "version: \"1\"",
  "",
  "# Rule switches. Rules left out of this map are enabled.",
  "rules:",
  "  DollarBrace: true",
  "  UnnecessaryInterpolation: true",
  "",
  "# Glob patterns (relative to the scanned directory) to skip.",
  "excluded_paths:",
  "  - \"**/Migrations/**\"",
  "",
  "# Check *.g.cs, *.designer.cs and files under obj/ or bin/.",
  "include_generated: false"]

inductive InitError where
  | occupied (path : String)
  | noDirectory (cause : FileError)
  | notWritten (cause : FileError)
deriving DecidableEq, Repr

def InitError.lines : InitError → List String
  | .occupied path =>
    [s!"Error: file already exists: {path}",
     "Remove it or use --output to specify a different path"]
  | .noDirectory cause => [s!"Error: failed to create directory: {cause.message}"]
  | .notWritten cause => [s!"Error: failed to write config: {cause.message}"]

def nextSteps (path : String) : List String :=
  [s!"Created {path}",
   "",
   "Next steps:",
   s!"  1. Edit {path} to customize for your project",
   s!"  2. Run: {toolName} lint . --config {path}"]

/-- Makes the directory of a new file, unless that is the working directory. -/
def prepareDirectory (path : String) (tree : FileTree) : Except FileError FileTree :=
  match Path.parentParts? path with
  | none => .ok tree
  | some [] => .ok tree
  | some [.here] => .ok tree
  | some parts => tree.makeDirectories parts.reverse

/-- Writes the template at a path. The tree is the one afterwards, and directories that were made
stay even if the file cannot be written. -/
def writeTemplate (path : String) (tree : FileTree) : FileTree × Option InitError :=
  if tree.isThere path then (tree, some (.occupied path))
  else
    match prepareDirectory path tree with
    | .error cause => (tree, some (.noDirectory cause))
    | .ok prepared =>
      match prepared.writeText path configTemplate with
      | .error cause => (prepared, some (.notWritten cause))
      | .ok written => (written, none)

def executeInit (path : String) (tree : FileTree) : CommandResult :=
  match writeTemplate path tree with
  | (after, some error) => ⟨CommandResult.broken, "", unlines error.lines, after⟩
  | (after, none) => ⟨CommandResult.success, unlines (nextSteps path), "", after⟩

end InterpolationLint
