import InterpolationLint.Yaml.Node

/-!
# YAML documents

A text holds one document, which may be empty. Directives may stand before it; they give the
version and expansions for tags, and a document behind them begins with its marker.
-/

namespace InterpolationLint

structure YamlDocument where
  root : YamlNode
  /-- The nodes with anchors, the last first. -/
  anchored : List (Nat × YamlNode)

namespace YamlDocument

def follow (document : YamlDocument) : YamlNode → Option YamlNode
  | .reference anchor => document.anchored.lookup anchor
  | node => some node

def text? (document : YamlDocument) (node : YamlNode) : Option String := do
  match ← document.follow node with
  | .scalar _ _ text => some text
  | _ => none

/-- The truth value of a scalar. Only a plain one has it, or a literal one with the tag for it. -/
def flag? (document : YamlDocument) (node : YamlNode) : Option Bool := do
  match ← document.follow node with
  | .scalar properties style text =>
    if style = .plain ∨ (style = .literal ∧ properties.tag = some "tag:yaml.org,2002:bool") then
      if text ∈ ["true", "True", "TRUE"] then some true
      else if text ∈ ["false", "False", "FALSE"] then some false
      else none
    else none
  | _ => none

def isBlankScalar (style : ScalarStyle) (text : String) : Bool := style == .plain && text == ""

def items? (document : YamlDocument) (node : YamlNode) : Option (List YamlNode) := do
  match ← document.follow node with
  | .list _ items => some items
  | .scalar _ style text => if isBlankScalar style text then some [] else none
  | _ => none

def entries? (document : YamlDocument) (node : YamlNode) :
    Option (List (YamlNode × YamlNode)) := do
  match ← document.follow node with
  | .mapping _ entries => some entries
  | .scalar _ style text => if isBlankScalar style text then some [] else none
  | _ => none

end YamlDocument

/-! ## Reading a text -/

def leadingDirectives {Anchor Tag : Type} : List (YamlToken Anchor Tag) → List YamlDirective
  | .directive directive :: rest => directive :: leadingDirectives rest
  | _ => []

def YamlDirective.version? : YamlDirective → Option (Nat × Nat)
  | .version major minor => some (major, minor)
  | .tag _ _ => none

def YamlDirective.expansion? : YamlDirective → Option (String × String)
  | .version _ _ => none
  | .tag handle expansion => some (handle, expansion)

/-- At most one version, which must be known, and at most one expansion for each handle. -/
def areDirectivesValid (directives : List YamlDirective) : Bool :=
  let versions := directives.filterMap YamlDirective.version?
  let handles := (directives.filterMap YamlDirective.expansion?).map Prod.fst
  versions.length ≤ 1 && versions.all [(1, 1), (1, 2)].contains && decide handles.Nodup

def isDocumentBlank : List NodeToken → Bool
  | [] => true
  | .directive _ :: _ => true
  | tokens => atMark [.documentStart, .documentEnd] tokens

/-- Reads a document behind its directives. Without directives its marker may be missing. -/
def readDocument (budget : Nat) (needsMarker : Bool) :
    List NodeToken → Option (YamlNode × List NodeToken)
  | .mark .documentStart :: rest =>
    if isDocumentBlank rest then some (.empty, rest) else readNode budget .block rest
  | tokens =>
    if needsMarker then none
    else if tokens.isEmpty then some (.empty, [])
    else readNode budget .block tokens

/-- The document of a text. Behind it only markers for its end may stand. -/
def parseYaml (source : String) : Option YamlDocument :=
  if source.toList.all isYamlChar then do
    let written ← yamlTokens (normalizeBreaks source.toList)
    let directives := leadingDirectives written
    let expansions := directives.filterMap YamlDirective.expansion? ++ defaultExpansions
    let tokens ← resolveNames expansions [] (written.drop directives.length)
    let (root, rest) ← readDocument (4 * tokens.length + 4) (!directives.isEmpty) tokens
    if areDirectivesValid directives && rest.all (atMark [.documentEnd] [·]) then
      return ⟨root, root.anchored.reverse⟩
    else none
  else none

end InterpolationLint
