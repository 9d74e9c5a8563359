import InterpolationLint.Yaml.Token

/-!
# What names stand for

Anchors get numbers in the order of the text, and tags are written out. A number is the count of
names before it, where a name that comes again is not counted again; so two anchors may share a
number, and then it stands for the later one.
-/

namespace InterpolationLint

abbrev NodeToken := YamlToken Nat String

abbrev TagExpansions := List (String × String)

def defaultExpansions : TagExpansions := [("!", "!"), ("!!", "tag:yaml.org,2002:")]

def TagName.expand? (expansions : TagExpansions) (name : TagName) : Option String :=
  if name.handle = "" then some name.suffix
  else (expansions.lookup name.handle).map (· ++ name.suffix)

def setAnchor (name : String) (number : Nat) : List (String × Nat) → List (String × Nat)
  | [] => [(name, number)]
  | (other, old) :: rest =>
    if other = name then (name, number) :: rest else (other, old) :: setAnchor name number rest

def resolveNames (expansions : TagExpansions) (anchors : List (String × Nat)) :
    List TextToken → Option (List NodeToken)
  | [] => some []
  | .anchor name :: rest => do
    let number := anchors.length
    return .anchor number :: (← resolveNames expansions (setAnchor name number anchors) rest)
  | .reference name :: rest => do
    return .reference (← anchors.lookup name) :: (← resolveNames expansions anchors rest)
  | .tag name :: rest => do
    return .tag (← name.expand? expansions) :: (← resolveNames expansions anchors rest)
  | .mark mark :: rest => do return .mark mark :: (← resolveNames expansions anchors rest)
  | .directive directive :: rest => do
    return .directive directive :: (← resolveNames expansions anchors rest)
  | .scalar style text :: rest => do
    return .scalar style text :: (← resolveNames expansions anchors rest)

end InterpolationLint
