/-!
# The command line

The commands and their options. Every level of the command line knows some options, and may take a
path beside them.
-/

namespace InterpolationLint

inductive UsageStop where
  | helpAsked
  | versionAsked
  /-- There are no arguments at all. -/
  | nothingAsked
  | missingCommand
  | missingPath
  | unknownCommand
  | unknownArgument
  /-- An option without its value, or an empty path. -/
  | invalidValue
  /-- A value for an option that takes none. -/
  | unwantedValue
  | repeatedOption
deriving DecidableEq, Repr

namespace UsageStop

def exitCode : UsageStop → Nat
  | helpAsked => 0
  | versionAsked => 0
  | _ => 2

end UsageStop

inductive CliOption where
  | verbose
  | help
  | version
  | config
  | format
  | showSuppressed
  | failLevel
  | disable
  | output
deriving DecidableEq, Repr

inductive OptionKind where
  | stop (reason : UsageStop)
  | switch
  | text
  | path
  /-- Takes a text each time it is given. -/
  | texts
deriving DecidableEq, Repr

namespace CliOption

def longName : CliOption → String
  | verbose => "verbose"
  | help => "help"
  | version => "version"
  | config => "config"
  | format => "format"
  | showSuppressed => "show-suppressed"
  | failLevel => "fail-level"
  | disable => "disable"
  | output => "output"

def letter? : CliOption → Option Char
  | verbose => some 'v'
  | help => some 'h'
  | version => some 'V'
  | config => some 'c'
  | format => some 'f'
  | showSuppressed => none
  | failLevel => none
  | disable => some 'd'
  | output => some 'o'

def kind : CliOption → OptionKind
  | verbose => .switch
  | help => .stop .helpAsked
  | version => .stop .versionAsked
  | config => .path
  | format => .text
  | showSuppressed => .switch
  | failLevel => .text
  | disable => .texts
  | output => .path

end CliOption

structure CliLevel where
  options : List CliOption
  takesPath : Bool
deriving DecidableEq, Repr

namespace CliLevel

def withName? (level : CliLevel) (name : String) : Option CliOption :=
  level.options.find? (·.longName = name)

def withLetter? (level : CliLevel) (letter : Char) : Option CliOption :=
  level.options.find? (·.letter? = some letter)

end CliLevel

inductive CommandName where
  | lint
  | rules
  | init
deriving DecidableEq, Repr

namespace CommandName

def ofWord? : String → Option CommandName
  | "lint" => some lint
  | "check" => some lint
  | "rules" => some rules
  | "init" => some init
  | _ => none

def level : CommandName → CliLevel
  | lint => ⟨[.verbose, .help, .config, .format, .showSuppressed, .failLevel, .disable], true⟩
  | rules => ⟨[.verbose, .help], false⟩
  | init => ⟨[.verbose, .help, .output], false⟩

end CommandName

def topLevel : CliLevel := ⟨[.verbose, .help, .version], false⟩

def helpWord : String := "help"

structure LintRequest where
  path : String
  config : Option String
  format : String
  showSuppressed : Bool
  failLevel : String
  disabled : List String
deriving DecidableEq, Repr

inductive Command where
  | lint (request : LintRequest)
  | rules
  | init (output : String)
deriving DecidableEq, Repr

end InterpolationLint
