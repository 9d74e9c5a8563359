import InterpolationLint.Config.Basic
import InterpolationLint.Yaml.Document

/-!
# Configs in YAML

A config file is a mapping. Keys it does not know are left out, known ones stand at most once, and
every one may be missing. Of repeated switches of a rule the last counts.
-/

namespace InterpolationLint

inductive ConfigTextProblem where
  | notYaml
  | wrongShape
deriving DecidableEq, Repr

def ConfigTextProblem.message : ConfigTextProblem → String
  | .notYaml => "the text is not a YAML document"
  | .wrongShape => "the document does not have the shape of a config"

def readSwitches (document : YamlDocument) (entries : List (YamlNode × YamlNode)) :
    Option (NameMap Bool) :=
  entries.foldlM (fun switches (key, value) => do
    return switches.insert (← document.text? key) (← document.flag? value)) .empty

def Config.setField? (document : YamlDocument) (config : Config) (name : String)
    (value : YamlNode) : Option Config :=
  match name with
  | "version" => do return { config with version := ← document.text? value }
  | "rules" => do
    return { config with switches := ← readSwitches document (← document.entries? value) }
  | "excluded_paths" => do
    return { config with excludedPaths := ← (← document.items? value).mapM document.text? }
  | "include_generated" => do return { config with includeGenerated := ← document.flag? value }
  | _ => some config

def configFields : List String := ["version", "rules", "excluded_paths", "include_generated"]

def Config.ofDocument? (document : YamlDocument) : Option Config := do
  let entries ← document.entries? document.root
  let names ← entries.mapM fun (key, _) => document.text? key
  if configFields.all fun name => names.count name ≤ 1 then
    (names.zip (entries.map Prod.snd)).foldlM
      (fun config (name, value) => Config.setField? document config name value) Config.default
  else none

def Config.ofYaml (source : String) : Except ConfigTextProblem Config :=
  match parseYaml source with
  | none => .error .notYaml
  | some document =>
    match Config.ofDocument? document with
    | none => .error .wrongShape
    | some config => .ok config

end InterpolationLint
