import InterpolationLint.Yaml.Name

/-!
# Nodes of YAML documents

A node is a scalar, a list, a mapping or a reference to a node with an anchor. Tokens make up
nodes: a collection stands between its marks, only a list that is a key or a value may stand at the
level of its mapping without marks of its own, and a key, a value or an item may be missing.
-/

namespace InterpolationLint

structure NodeProperties where
  anchor : Option Nat
  tag : Option String
deriving DecidableEq, Repr

inductive YamlNode where
  | scalar (properties : NodeProperties) (style : ScalarStyle) (text : String)
  | list (properties : NodeProperties) (items : List YamlNode)
  | mapping (properties : NodeProperties) (entries : List (YamlNode × YamlNode))
  | reference (anchor : Nat)

def YamlNode.empty : YamlNode := .scalar ⟨none, none⟩ .plain ""

inductive NodePlace where
  /-- Inside brackets. -/
  | flow
  /-- In a list or alone, outside brackets. -/
  | block
  /-- As a key or a value, outside brackets. -/
  | entry
deriving DecidableEq, Repr

def readProperties : List NodeToken → NodeProperties × List NodeToken
  | .anchor anchor :: .tag tag :: rest => (⟨some anchor, some tag⟩, rest)
  | .tag tag :: .anchor anchor :: rest => (⟨some anchor, some tag⟩, rest)
  | .anchor anchor :: rest => (⟨some anchor, none⟩, rest)
  | .tag tag :: rest => (⟨none, some tag⟩, rest)
  | tokens => (⟨none, none⟩, tokens)

/-- Only a node with properties may be left out where a node must stand. -/
def NodeProperties.emptyNode? (properties : NodeProperties) : Option YamlNode :=
  if properties.anchor.isNone && properties.tag.isNone then none
  else some (.scalar properties .plain "")

def atMark (marks : List YamlMark) : List NodeToken → Bool
  | .mark mark :: _ => marks.contains mark
  | _ => false

mutual

def readNode : Nat → NodePlace → List NodeToken → Option (YamlNode × List NodeToken)
  | 0, _, _ => none
  | _ + 1, _, .reference anchor :: rest => some (.reference anchor, rest)
  | budget + 1, place, tokens =>
    let (properties, content) := readProperties tokens
    match place, content with
    | .entry, .mark .blockEntry :: _ => do
      let (items, after) ← readItems budget false content
      return (.list properties items, after)
    | _, .scalar style text :: rest => some (.scalar properties style text, rest)
    | _, .mark .flowListStart :: rest => do
      let (items, after) ← readFlowItems budget rest
      return (.list properties items, after)
    | _, .mark .flowMappingStart :: rest => do
      let (entries, after) ← readFlowEntries budget rest
      return (.mapping properties entries, after)
    | .flow, _ => do return (← properties.emptyNode?, content)
    | _, .mark .blockListStart :: rest => do
      let (items, after) ← readItems budget true rest
      return (.list properties items, after)
    | _, .mark .blockMappingStart :: rest => do
      let (entries, after) ← readEntries budget rest
      return (.mapping properties entries, after)
    | _, _ => do return (← properties.emptyNode?, content)

/-- Reads the items of a list outside brackets. With `closes` it has a mark for its end, or else it
ends where no item follows. -/
def readItems : Nat → Bool → List NodeToken → Option (List YamlNode × List NodeToken)
  | 0, _, _ => none
  | budget + 1, closes, .mark .blockEntry :: rest => do
    let ends := if closes then [.blockEntry, .blockEnd] else [.blockEntry, .key, .value, .blockEnd]
    let (item, next) ←
      if atMark ends rest then some (.empty, rest) else readNode budget .block rest
    let (items, after) ← readItems budget closes next
    return (item :: items, after)
  | _ + 1, true, .mark .blockEnd :: rest => some ([], rest)
  | _ + 1, true, _ => none
  | _ + 1, false, rest => some ([], rest)

/-- Reads the entries of a mapping outside brackets. A value may be missing with its mark, a key
may not. -/
def readEntries : Nat → List NodeToken → Option (List (YamlNode × YamlNode) × List NodeToken)
  | budget + 1, .mark .key :: rest => do
    let (key, next) ← readPart budget rest
    let (value, next) ← match next with
      | .mark .value :: rest => readPart budget rest
      | _ => some (.empty, next)
    let (entries, after) ← readEntries budget next
    return ((key, value) :: entries, after)
  | _ + 1, .mark .blockEnd :: rest => some ([], rest)
  | _, _ => none

def readPart : Nat → List NodeToken → Option (YamlNode × List NodeToken)
  | 0, _ => none
  | budget + 1, tokens =>
    if atMark [.key, .value, .blockEnd] tokens then some (.empty, tokens)
    else readNode budget .entry tokens

def readFlowItems : Nat → List NodeToken → Option (List YamlNode × List NodeToken)
  | 0, _ => none
  | _ + 1, .mark .flowListEnd :: rest => some ([], rest)
  | budget + 1, tokens => do
    let (item, next) ← readFlowItem budget tokens
    match next with
    | .mark .flowEntry :: rest =>
      let (items, after) ← readFlowItems budget rest
      return (item :: items, after)
    | .mark .flowListEnd :: rest => return ([item], rest)
    | _ => none

/-- Reads an item of a list in brackets. A key makes it a mapping of one entry. If the key is
missing, the mark behind its own counts for nothing. -/
def readFlowItem : Nat → List NodeToken → Option (YamlNode × List NodeToken)
  | budget + 1, .mark .key :: rest => do
    let (key, next) ←
      if atMark [.value, .flowEntry, .flowListEnd] rest then some (.empty, rest.drop 1)
      else readNode budget .flow rest
    let (value, after) ← readFlowValue budget next
    return (.mapping ⟨none, none⟩ [(key, value)], after)
  | budget + 1, tokens => readNode budget .flow tokens
  | 0, _ => none

def readFlowEntries : Nat → List NodeToken → Option (List (YamlNode × YamlNode) × List NodeToken)
  | 0, _ => none
  | _ + 1, .mark .flowMappingEnd :: rest => some ([], rest)
  | budget + 1, tokens => do
    let (entry, next) ← readFlowEntry budget tokens
    match next with
    | .mark .flowEntry :: rest =>
      let (entries, after) ← readFlowEntries budget rest
      return (entry :: entries, after)
    | .mark .flowMappingEnd :: rest => return ([entry], rest)
    | _ => none

/-- Reads an entry of a mapping in brackets. A node without a mark is a key without a value. -/
def readFlowEntry : Nat → List NodeToken → Option ((YamlNode × YamlNode) × List NodeToken)
  | budget + 1, .mark .key :: rest => do
    let (key, next) ←
      if atMark [.value, .flowEntry, .flowMappingEnd] rest then some (.empty, rest)
      else readNode budget .flow rest
    let (value, after) ← readFlowValue budget next
    return ((key, value), after)
  | budget + 1, tokens => do
    let (key, after) ← readNode budget .flow tokens
    return ((key, .empty), after)
  | 0, _ => none

def readFlowValue : Nat → List NodeToken → Option (YamlNode × List NodeToken)
  | budget + 1, .mark .value :: rest =>
    if atMark [.flowEntry, .flowListEnd, .flowMappingEnd] rest then some (.empty, rest)
    else readNode budget .flow rest
  | _ + 1, tokens => some (.empty, tokens)
  | 0, _ => none

end

/-! ## Anchors -/

def NodeProperties.anchored (properties : NodeProperties) (node : YamlNode) :
    List (Nat × YamlNode) :=
  properties.anchor.toList.map (·, node)

mutual

def YamlNode.anchored : YamlNode → List (Nat × YamlNode)
  | .scalar properties style text => properties.anchored (.scalar properties style text)
  | .list properties items => properties.anchored (.list properties items) ++ anchoredItems items
  | .mapping properties entries =>
    properties.anchored (.mapping properties entries) ++ anchoredEntries entries
  | .reference _ => []

def anchoredItems : List YamlNode → List (Nat × YamlNode)
  | [] => []
  | item :: rest => item.anchored ++ anchoredItems rest

def anchoredEntries : List (YamlNode × YamlNode) → List (Nat × YamlNode)
  | [] => []
  | (key, value) :: rest => key.anchored ++ value.anchored ++ anchoredEntries rest

end

end InterpolationLint
