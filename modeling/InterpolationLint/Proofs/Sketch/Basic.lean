import InterpolationLint.Tree.Basic
import Mathlib.Data.List.Chain

/-!
# Sketches of code

A sketch is a piece of code without places: words, plain strings, groups in brackets and interpolated
strings, nested to any depth. It is written down as text with one space between items, and it has
the tree that a scan of that text should give, up to places.
-/

namespace InterpolationLint

inductive Bracket where
  | round
  | square
  | curly
deriving DecidableEq, Repr

namespace Bracket

def opening : Bracket → Char
  | round => '('
  | square => '['
  | curly => '\x7b'

def closing : Bracket → Char
  | round => ')'
  | square => ']'
  | curly => '\x7d'

def delimiter : Bracket → Delimiter
  | round => .paren
  | square => .bracket
  | curly => .brace

end Bracket

/-- The ways to write an interpolated string. A verbatim one has its dollar sign first or last. -/
inductive Flavor where
  | regular
  | verbatim (dollarFirst : Bool)
  | raw (dollars quotes : Nat) (hdollars : 1 ≤ dollars) (hquotes : 3 ≤ quotes)
deriving DecidableEq, Repr

namespace Flavor

def kind : Flavor → StringKind
  | regular => .regular
  | verbatim _ => .verbatim
  | raw dollars quotes _ _ => .raw dollars quotes

def opening : Flavor → List Char
  | regular => ['$', '"']
  | verbatim true => ['$', '@', '"']
  | verbatim false => ['@', '$', '"']
  | raw dollars quotes _ _ => List.replicate dollars '$' ++ List.replicate quotes '"'

def closing (flavor : Flavor) : List Char := List.replicate flavor.kind.quotes '"'

def allows : Flavor → Char → Bool
  | regular, c => c != '"' && c != '\\' && c != '\n'
  | verbatim _, _ => true
  | raw _ _ _ _, c => c != '"' && c != '\x7b'

def doubles : Flavor → Char → Bool
  | regular, c => c == '\x7b' || c == '\x7d'
  | verbatim _, c => c == '"' || c == '\x7b' || c == '\x7d'
  | raw _ _ _ _, _ => false

def written (flavor : Flavor) : List Char → List Char
  | [] => []
  | c :: rest => if flavor.doubles c then c :: c :: flavor.written rest else c :: flavor.written rest

end Flavor

mutual

inductive Sketch where
  | word (letters : List Char)
  | plain (text : List Char)
  | group (bracket : Bracket) (items : List Sketch)
  | interpolated (flavor : Flavor) (parts : List SketchPart)

inductive SketchPart where
  | text (text : List Char)
  | hole (items : List Sketch)

end

def SketchPart.isText : SketchPart → Bool
  | .text _ => true
  | .hole _ => false

mutual

inductive Sketch.WellFormed : Sketch → Prop
  | word {letters : List Char} : letters ≠ [] → (∀ c ∈ letters, c.isAlpha = true) →
      Sketch.WellFormed (.word letters)
  | plain {text : List Char} : (∀ c ∈ text, c ≠ '"' ∧ c ≠ '\\' ∧ c ≠ '\n') →
      Sketch.WellFormed (.plain text)
  | group {bracket : Bracket} {items : List Sketch} : (∀ item ∈ items, item.WellFormed) →
      Sketch.WellFormed (.group bracket items)
  | interpolated {flavor : Flavor} {parts : List SketchPart} :
      (∀ d q hd hq, flavor = .raw d q hd hq → parts ≠ []) →
      parts.IsChain (fun part next => part.isText = true → next.isText = false) →
      (∀ part ∈ parts, part.WellFormed flavor) → Sketch.WellFormed (.interpolated flavor parts)

inductive SketchPart.WellFormed : Flavor → SketchPart → Prop
  | text {flavor : Flavor} {text : List Char} : text ≠ [] → (∀ c ∈ text, flavor.allows c = true) →
      SketchPart.WellFormed flavor (.text text)
  | hole {flavor : Flavor} {items : List Sketch} : items ≠ [] → (∀ item ∈ items, item.WellFormed) →
      SketchPart.WellFormed flavor (.hole items)

end

/-! ## Writing -/

mutual

def Sketch.render (pad : Nat) : Sketch → List Char
  | .word letters => letters
  | .plain text => '"' :: (text ++ ['"'])
  | .group bracket items => bracket.opening :: (List.replicate pad ' ' ++
      (Sketch.renderAll pad items ++ (List.replicate pad ' ' ++ [bracket.closing])))
  | .interpolated flavor parts =>
    flavor.opening ++ (SketchPart.renderAll pad flavor parts ++ flavor.closing)

def Sketch.renderAll (pad : Nat) : List Sketch → List Char
  | [] => []
  | [item] => item.render pad
  | item :: next :: rest => item.render pad ++ ' ' :: Sketch.renderAll pad (next :: rest)

def SketchPart.renderAll (pad : Nat) (flavor : Flavor) : List SketchPart → List Char
  | [] => []
  | .text text :: rest => flavor.written text ++ SketchPart.renderAll pad flavor rest
  | .hole items :: rest => List.replicate flavor.kind.braces '\x7b' ++
      (' ' :: (Sketch.renderAll pad items ++
        (' ' :: (List.replicate flavor.kind.braces '\x7d' ++
          SketchPart.renderAll pad flavor rest))))

end

/-! ## The tree of a sketch -/

def TextRange.nowhere : TextRange := ⟨0, 0⟩

def sideBySide : List Expr → Expr
  | [item] => item
  | items => .group .juxtaposition .nowhere items

mutual

def Sketch.tree : Sketch → Expr
  | .word _ => .code .nowhere
  | .plain _ => .literal .nowhere
  | .group bracket items => .group bracket.delimiter .nowhere (Sketch.trees items)
  | .interpolated flavor parts =>
    .interpolated ⟨0, flavor.kind, .nowhere, .nowhere, SketchPart.segments flavor parts⟩

def Sketch.trees : List Sketch → List Expr
  | [] => []
  | item :: rest => item.tree :: Sketch.trees rest

def SketchPart.segments (flavor : Flavor) : List SketchPart → List Segment
  | [] => []
  | .text text :: rest =>
    .text (String.ofList (flavor.written text)) .nowhere :: SketchPart.segments flavor rest
  | .hole items :: rest =>
    .hole .nowhere (sideBySide (Sketch.trees items)) none none :: SketchPart.segments flavor rest

end

/-! ## Trees without places -/

mutual

def Expr.unplaced : Expr → Expr
  | .interpolated ⟨_, kind, _, _, segments⟩ =>
    .interpolated ⟨0, kind, .nowhere, .nowhere, Segment.unplacedAll segments⟩
  | .literal _ => .literal .nowhere
  | .code _ => .code .nowhere
  | .group delimiter _ children => .group delimiter .nowhere (Expr.unplacedAll children)

def Expr.unplacedAll : List Expr → List Expr
  | [] => []
  | expr :: rest => expr.unplaced :: Expr.unplacedAll rest

def Segment.unplacedAll : List Segment → List Segment
  | [] => []
  | .text text _ :: rest => .text text .nowhere :: Segment.unplacedAll rest
  | .hole _ expression none format :: rest =>
    .hole .nowhere expression.unplaced none (format.map fun _ => .nowhere) ::
      Segment.unplacedAll rest
  | .hole _ expression (some alignment) format :: rest =>
    .hole .nowhere expression.unplaced (some alignment.unplaced) (format.map fun _ => .nowhere) ::
      Segment.unplacedAll rest

end

end InterpolationLint
