import InterpolationLint.Yaml.Property

/-!
# Tokens of YAML texts

Indentation becomes tokens for the start and the end of collections. What makes a scalar a key is
the colon behind it, so a place where a key may begin is remembered until the colon comes, which
must be on the same line and not far behind; then the token for a key goes in before it.
-/

namespace InterpolationLint

inductive YamlMark where
  | documentStart
  | documentEnd
  | blockListStart
  | blockMappingStart
  /-- The end of a collection by indentation. -/
  | blockEnd
  | flowListStart
  | flowListEnd
  | flowMappingStart
  | flowMappingEnd
  | blockEntry
  | flowEntry
  | key
  | value
deriving DecidableEq, Repr

inductive YamlToken (Anchor Tag : Type) where
  | mark (mark : YamlMark)
  | directive (directive : YamlDirective)
  | reference (name : Anchor)
  | anchor (name : Anchor)
  | tag (name : Tag)
  | scalar (style : ScalarStyle) (text : String)
deriving Repr

abbrev TextToken := YamlToken String TagName

structure KeyCandidate where
  /-- The tokens before it, the last first. -/
  before : List TextToken
  line : Nat
  column : Nat
  /-- Nothing but a key may stand there. -/
  required : Bool

structure TokenScan where
  cursor : YamlCursor
  /-- The tokens so far, the last first. -/
  tokens : List TextToken
  /-- For each open collection, the innermost first, the column behind the one it begins at. -/
  levels : List Nat
  /-- A key may begin at the next token. -/
  keyAllowed : Bool
  key : Option KeyCandidate
  /-- The candidates outside each open bracket, the innermost first. -/
  outerKeys : List (Option KeyCandidate)

namespace TokenScan

def inFlow (s : TokenScan) : Bool := !s.outerKeys.isEmpty

def level (s : TokenScan) : Nat := s.levels.headD 0

/-! ## Candidates for keys -/

def dropKey (s : TokenScan) : Option TokenScan :=
  if s.key.any KeyCandidate.required then none else some { s with key := none }

def saveKey (s : TokenScan) : Option TokenScan :=
  if s.keyAllowed then do
    let required := !s.inFlow && s.level == s.cursor.column + 1
    return { ← s.dropKey with
      key := some ⟨s.tokens, s.cursor.line, s.cursor.column, required⟩ }
  else some s

/-- The colon behind a key must be on its line, at most 1024 columns behind its first character. -/
def isStale (key : KeyCandidate) (c : YamlCursor) : Bool :=
  key.line != c.line || key.column + 1024 < c.column

def freshKey (c : YamlCursor) : Option KeyCandidate → Option (Option KeyCandidate)
  | none => some none
  | some key =>
    if isStale key c then if key.required then none else some none
    else some (some key)

def dropStaleKeys (s : TokenScan) : Option TokenScan := do
  return { s with
    key := ← freshKey s.cursor s.key
    outerKeys := ← s.outerKeys.mapM (freshKey s.cursor) }

/-! ## Collections by indentation -/

def closeBlocks (bound : Nat) (s : TokenScan) : TokenScan :=
  if s.inFlow then s
  else
    let closed := s.levels.takeWhile (bound < ·)
    { s with
      tokens := closed.map (fun _ => .mark .blockEnd) ++ s.tokens
      levels := s.levels.dropWhile (bound < ·) }

def opensBlock (column : Nat) (s : TokenScan) : Bool := !s.inFlow && s.level ≤ column

/-- Begins a collection at the place, unless its entry belongs to one that is open. An entry must
stand where a key may begin. -/
def openBlock (mark : YamlMark) (s : TokenScan) : Option TokenScan :=
  if !s.inFlow && !s.keyAllowed then none
  else if s.opensBlock s.cursor.column then
    some { s with tokens := .mark mark :: s.tokens, levels := (s.cursor.column + 1) :: s.levels }
  else some s

/-! ## One token -/

def add (token : TextToken) (width : Nat) (keyAllowed : Bool) (s : TokenScan) : TokenScan :=
  { s with cursor := s.cursor.advance width, tokens := token :: s.tokens, keyAllowed }

def endDocument (s : TokenScan) : Option TokenScan := (s.closeBlocks 0).dropKey

def addDirective (s : TokenScan) : Option TokenScan := do
  let (directive, cursor) ← readDirective (s.cursor.advance 1)
  return { (← s.endDocument).add (.directive directive) 0 false with cursor }

def addMarker (mark : YamlMark) (s : TokenScan) : Option TokenScan := do
  return (← s.endDocument).add (.mark mark) 3 false

def openBracket (mark : YamlMark) (s : TokenScan) : Option TokenScan := do
  let s ← s.saveKey
  return { s.add (.mark mark) 1 true with key := none, outerKeys := s.key :: s.outerKeys }

def closeBracket (mark : YamlMark) (s : TokenScan) : Option TokenScan := do
  let s := (← s.dropKey).add (.mark mark) 1 false
  return { s with key := s.outerKeys.head?.join, outerKeys := s.outerKeys.tail }

def addFlowEntry (s : TokenScan) : Option TokenScan := do
  return (← s.dropKey).add (.mark .flowEntry) 1 true

def addBlockEntry (s : TokenScan) : Option TokenScan := do
  return (← (← s.openBlock .blockListStart).dropKey).add (.mark .blockEntry) 1 true

def addKey (s : TokenScan) : Option TokenScan := do
  return (← (← s.openBlock .blockMappingStart).dropKey).add (.mark .key) 1 (!s.inFlow)

/-- A colon. It makes a key of the candidate, or else belongs to a marked key or to none. -/
def addValue (s : TokenScan) : Option TokenScan :=
  match s.key with
  | some key =>
    let since := s.tokens.take (s.tokens.length - key.before.length)
    let s := { s with key := none }
    let opened : TokenScan :=
      if s.opensBlock key.column then
        { s with
          tokens := since ++ .mark .key :: .mark .blockMappingStart :: key.before
          levels := (key.column + 1) :: s.levels }
      else { s with tokens := since ++ .mark .key :: key.before }
    some (opened.add (.mark .value) 1 false)
  | none => do return (← s.openBlock .blockMappingStart).add (.mark .value) 1 (!s.inFlow)

def addReference (s : TokenScan) : Option TokenScan := do
  let (name, cursor) ← readAnchorName (s.cursor.advance 1)
  return { (← s.saveKey).add (.reference name) 0 false with cursor }

def addAnchor (s : TokenScan) : Option TokenScan := do
  let (name, cursor) ← readAnchorName (s.cursor.advance 1)
  return { (← s.saveKey).add (.anchor name) 0 false with cursor }

/-- A tag has a gap behind it, or inside brackets a comma. -/
def addTag (s : TokenScan) : Option TokenScan := do
  let (name, cursor) ← readTag s.cursor
  if atGap cursor.ahead || (s.inFlow && cursor.sees ',') then
    return { (← s.saveKey).add (.tag name) 0 false with cursor }
  else none

def addBlockScalar (style : ScalarStyle) (s : TokenScan) : Option TokenScan :=
  if s.inFlow then none
  else do
    let (text, cursor) ← readBlock (style == .folded) s.level (s.cursor.advance 1)
    return { (← s.dropKey).add (.scalar style (String.ofList text)) 0 true with cursor }

def addQuoted (quote : Char) (s : TokenScan) : Option TokenScan := do
  let c := s.cursor.advance 1
  let (text, cursor) ← readQuoted quote [] (.text []) c.line c.column c.ahead
  return { (← s.saveKey).add (.scalar .quoted (String.ofList text)) 0 false with cursor }

def addPlain (s : TokenScan) : Option TokenScan :=
  let c := s.cursor
  if startsPlain s.inFlow c.ahead then do
    let (text, cursor, crossed) ← readPlain s.inFlow s.level [] [] c.line c.column c.ahead
    return { (← s.saveKey).add (.scalar .plain (String.ofList text)) 0 crossed with cursor }
  else none

def addToken (s : TokenScan) : Option TokenScan :=
  if s.cursor.column == 0 && s.cursor.sees '%' then s.addDirective
  else if s.cursor.atMarker "---" then s.addMarker .documentStart
  else if s.cursor.atMarker "..." then s.addMarker .documentEnd
  else
    match s.cursor.ahead with
    | '[' :: _ => s.openBracket .flowListStart
    | '\x7b' :: _ => s.openBracket .flowMappingStart
    | ']' :: _ => s.closeBracket .flowListEnd
    | '\x7d' :: _ => s.closeBracket .flowMappingEnd
    | ',' :: _ => s.addFlowEntry
    | '-' :: rest => if atGap rest then s.addBlockEntry else s.addPlain
    | '?' :: rest => if s.inFlow || atGap rest then s.addKey else s.addPlain
    | ':' :: rest => if s.inFlow || atGap rest then s.addValue else s.addPlain
    | '*' :: _ => s.addReference
    | '&' :: _ => s.addAnchor
    | '!' :: _ => s.addTag
    | '|' :: _ => s.addBlockScalar .literal
    | '>' :: _ => s.addBlockScalar .folded
    | '\'' :: _ => s.addQuoted '\''
    | '"' :: _ => s.addQuoted '"'
    | _ => s.addPlain

/-! ## All tokens -/

/-- The next place where something stands, and whether a key may begin there. Outside brackets a
tab may not stand where a key may begin, and a new line may begin with a key. A byte order mark at
the start of a line takes up a column. -/
def skipBlanks (inFlow inComment keyAllowed : Bool) (line column : Nat) :
    List Char → YamlCursor × Bool
  | [] => (⟨[], line, column⟩, keyAllowed)
  | c :: rest =>
    if isYamlBreak c then skipBlanks inFlow false (keyAllowed || !inFlow) (line + 1) 0 rest
    else if inComment then skipBlanks inFlow true keyAllowed line (column + 1) rest
    else if c == '#' then skipBlanks inFlow true keyAllowed line (column + 1) rest
    else if c == ' ' || (c == '\t' && (inFlow || !keyAllowed)) ||
        (c == '\ufeff' && column == 0) then
      skipBlanks inFlow false keyAllowed line (column + 1) rest
    else (⟨c :: rest, line, column⟩, keyAllowed)

def settle (s : TokenScan) : Option TokenScan := do
  let c := s.cursor
  let (cursor, keyAllowed) := skipBlanks s.inFlow false s.keyAllowed c.line c.column c.ahead
  let s ← { s with cursor, keyAllowed }.dropStaleKeys
  return s.closeBlocks (cursor.column + 1)

def run : Nat → TokenScan → Option (List TextToken)
  | 0, _ => none
  | budget + 1, s => do
    let s ← s.settle
    if s.cursor.ahead.isEmpty then return (← s.endDocument).tokens.reverse
    else run budget (← s.addToken)

end TokenScan

def yamlTokens (text : List Char) : Option (List TextToken) :=
  TokenScan.run (text.length + 1) ⟨⟨text, 0, 0⟩, [], [], true, none, []⟩

end InterpolationLint
