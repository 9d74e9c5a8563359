import InterpolationLint.NameMap
import InterpolationLint.Path
import InterpolationLint.Rule.Selection
import InterpolationLint.Text.Quoted

/-!
# Configs

A config switches rules on and off and says which files are left out: by patterns, and unless it
asks for them, files that tools generate. How patterns and config files are read is up to their
readers.
-/

namespace InterpolationLint

structure Config where
  version : String
  /-- Switches by rule name. Rules without a switch are on. -/
  switches : NameMap Bool
  excludedPaths : List String
  includeGenerated : Bool
deriving DecidableEq, Repr

/-- A reader of patterns tells which paths a pattern matches, or why a text is no pattern. -/
abbrev PatternReader := String → Except String (String → Bool)

structure ConfigReaders where
  pattern : PatternReader
  /-- Reads the text of a config file. -/
  config : String → Except String Config

inductive ConfigProblem where
  | unknownRule (name : String)
  | invalidPattern (pattern problem : String)
deriving DecidableEq, Repr

def ConfigProblem.message : ConfigProblem → String
  | .unknownRule name =>
    let known := String.intercalate ", " (Rule.all.map Rule.name)
    s!"unknown rule {quoted name} in config, expected one of: {known}"
  | .invalidPattern pattern problem =>
    s!"invalid excluded_paths pattern {quoted pattern}: {problem}"

def sameIgnoringCase (a b : String) : Bool :=
  a.toList.map Char.toLower == b.toList.map Char.toLower

def endsIgnoringCase (text ending : String) : Bool :=
  (ending.toList.reverse).isPrefixOf ((text.toList.map Char.toLower).reverse)

def isBuildDirectory : PathPart → Bool
  | .name text => sameIgnoringCase text "obj" || sameIgnoringCase text "bin"
  | _ => false

/-- Files in build output, and files that a designer or a generator names. No letter outside ASCII
has a letter of these endings as its lower case. -/
def isGenerated (path : String) : Bool :=
  ((Path.parentParts? path).getD []).any isBuildDirectory ||
    match Path.fileName? path with
    | some name => endsIgnoringCase name ".g.cs" || endsIgnoringCase name ".designer.cs"
    | none => false

/-- A pattern excludes the paths that it matches. A text that is no pattern excludes nothing. -/
def PatternReader.excludes (readPattern : PatternReader) (pattern path : String) : Bool :=
  match readPattern pattern with
  | .ok matchesPath => matchesPath path
  | .error _ => false

namespace Config

def default : Config := ⟨"", .empty, [], false⟩

instance : Inhabited Config := ⟨default⟩

/-- The rules that a config leaves on. Switches of unknown names have no effect. -/
def ruleSet (config : Config) : RuleSet :=
  config.switches.entries.foldl (fun rules (name, on) =>
    match Rule.ofName? name with
    | some rule => rules.set rule on
    | none => rules) RuleSet.all

def setRule (config : Config) (name : String) (on : Bool) : Config :=
  { config with switches := config.switches.insert name on }

section
variable (readPattern : PatternReader)

def excludes (config : Config) (path : String) : Bool :=
  config.excludedPaths.any (readPattern.excludes · path)

def skips (config : Config) (path : String) : Bool :=
  config.excludes readPattern path || (!config.includeGenerated && isGenerated path)

/-- The first unknown rule, or else the first text that is no pattern. -/
def problem? (config : Config) : Option ConfigProblem :=
  let unknown := config.switches.entries.findSome? fun (name, _) =>
    if (Rule.ofName? name).isNone then some (.unknownRule name) else none
  unknown.or <| config.excludedPaths.findSome? fun pattern =>
    match readPattern pattern with
    | .ok _ => none
    | .error problem => some (.invalidPattern pattern problem)

end

end Config

end InterpolationLint
