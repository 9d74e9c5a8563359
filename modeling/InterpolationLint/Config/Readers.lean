import InterpolationLint.Config.Yaml
import InterpolationLint.Glob.Match
import InterpolationLint.Glob.Parse

/-!
# Readers of the program

Patterns are globs, which match the bytes of a path, and config files are written in YAML.
-/

namespace InterpolationLint

def globReader : PatternReader := fun pattern =>
  match parseGlob pattern with
  | .ok tokens => .ok fun path => globMatches tokens (path.toList.flatMap String.utf8EncodeChar)
  | .error problem => .error s!"error parsing glob '{pattern}': {problem.message}"

def ConfigReaders.standard : ConfigReaders where
  pattern := globReader
  config text := (Config.ofYaml text).mapError ConfigTextProblem.message

end InterpolationLint
