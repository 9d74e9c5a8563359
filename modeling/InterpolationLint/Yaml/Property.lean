import InterpolationLint.Yaml.Scalar

/-!
# Names and directives of YAML texts

What may stand before a node, an anchor or a tag, and the directives before a document. The octets
of a tag may be written in hexadecimal, and are kept as the characters of their numbers.
-/

namespace InterpolationLint

def readAnchorName (c : YamlCursor) : Option (String × YamlCursor) :=
  let name := c.ahead.takeWhile isYamlNameChar
  let after := c.advance name.length
  let ends := ['?', ':', ',', ']', '\x7d', '%', '@', Char.ofNat 0x60]
  if !name.isEmpty && (atGap after.ahead || after.ahead.head?.any ends.contains) then
    some (String.ofList name, after)
  else none

/-! ## Tags -/

structure TagName where
  handle : String
  suffix : String
deriving DecidableEq, Repr

def isTagChar (wide : Bool) (c : Char) : Bool :=
  isYamlNameChar c ||
    [';', '/', '?', ':', '@', '&', '=', '+', '$', '.', '!', '~', '*', '\'', '(', ')'].contains c ||
    (wide && [',', '[', ']'].contains c)

def octetsBehind? (octet : Nat) : Option Nat :=
  if octet < 0x80 then some 0
  else if octet < 0xc0 then none
  else if octet < 0xe0 then some 1
  else if octet < 0xf0 then some 2
  else if octet < 0xf8 then some 3
  else none

/-- The octets of a tag and the number of characters that write them. `missing` octets belong to a
character of which some have been read. -/
def readTagChars (wide : Bool) (missing : Nat) : List Char → Option (List Char × Nat)
  | [] => if missing = 0 then some ([], 0) else none
  | '%' :: high :: low :: rest => do
    let octet ← hexValue? [high, low]
    let missing ←
      if missing = 0 then octetsBehind? octet
      else if octet / 0x40 = 2 then some (missing - 1)
      else none
    let (text, length) ← readTagChars wide missing rest
    return (Char.ofNat octet :: text, length + 3)
  | c :: rest =>
    if missing ≠ 0 ∨ c = '%' then none
    else if isTagChar wide c then do
      let (text, length) ← readTagChars wide 0 rest
      return (c :: text, length + 1)
    else some ([], 0)

/-- Reads the rest of a tag, which may be empty if it `continues` a name. A zero octet ends it. -/
def readTagText (wide continues : Bool) (c : YamlCursor) : Option (List Char × YamlCursor) := do
  let (text, length) ← readTagChars wide 0 c.ahead
  if length = 0 && !continues then none
  else return (text.takeWhile (· ≠ '\x00'), c.advance length)

/-- A handle: an exclamation mark, and behind a name a second one, which may be missing if the
name belongs to the tag itself. -/
def readTagHandle (c : YamlCursor) : Option (List Char × YamlCursor) :=
  if c.sees '!' then
    let name := (c.ahead.drop 1).takeWhile isYamlNameChar
    let behind := c.advance (name.length + 1)
    if behind.sees '!' then some ('!' :: name ++ ['!'], behind.advance 1)
    else some ('!' :: name, behind)
  else none

def isTagHandle (handle : List Char) : Bool := 2 ≤ handle.length && handle.getLast? == some '!'

def readTag (c : YamlCursor) : Option (TagName × YamlCursor) :=
  if (c.advance 1).sees '<' then do
    let (text, after) ← readTagText true false (c.advance 2)
    if after.sees '>' then return (⟨"", String.ofList text⟩, after.advance 1) else none
  else do
    let (handle, behind) ← readTagHandle c
    if isTagHandle handle then
      let (text, after) ← readTagText false false behind
      return (⟨String.ofList handle, String.ofList text⟩, after)
    else
      let (text, after) ← readTagText false true behind
      let suffix := handle.drop 1 ++ text
      if suffix.isEmpty then return (⟨"", "!"⟩, after)
      else return (⟨"!", String.ofList suffix⟩, after)

/-! ## Directives -/

inductive YamlDirective where
  | version (major minor : Nat)
  | tag (handle expansion : String)
deriving DecidableEq, Repr

/-- A number of a version has at most nine digits. -/
def readVersionNumber (c : YamlCursor) : Option (Nat × YamlCursor) :=
  let digits := c.ahead.takeWhile Char.isDigit
  if 1 ≤ digits.length ∧ digits.length ≤ 9 then
    some (digits.foldl (fun n d => 10 * n + (d.toNat - '0'.toNat)) 0, c.advance digits.length)
  else none

def readVersion (c : YamlCursor) : Option (YamlDirective × YamlCursor) := do
  let (major, dot) ← readVersionNumber c
  if dot.sees '.' then
    let (minor, after) ← readVersionNumber (dot.advance 1)
    return (.version major minor, after)
  else none

def readTagDirective (c : YamlCursor) : Option (YamlDirective × YamlCursor) := do
  let (handle, behind) ← readTagHandle c
  if (handle == ['!'] || isTagHandle handle) && behind.ahead.head?.any isYamlSpace then
    let (text, after) ← readTagText true false (behind.skipWhile isYamlSpace)
    if atGap after.ahead then
      return (.tag (String.ofList handle) (String.ofList text), after)
    else none
  else none

def readDirective (c : YamlCursor) : Option (YamlDirective × YamlCursor) := do
  let name := c.ahead.takeWhile isYamlNameChar
  let behind := c.advance name.length
  if atGap behind.ahead then
    let value := behind.skipWhile isYamlSpace
    let (directive, after) ← match String.ofList name with
      | "YAML" => readVersion value
      | "TAG" => readTagDirective value
      | _ => none
    return (directive, ← after.finishLine?)
  else none

end InterpolationLint
