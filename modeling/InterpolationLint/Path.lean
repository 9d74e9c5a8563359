/-!
# Paths

Paths are texts whose parts are divided by slashes. Empty parts and single dots count for nothing,
except a dot at the very front.
-/

namespace InterpolationLint

inductive PathPart where
  | root
  | here
  | up
  | name (text : String)
deriving DecidableEq, Repr

namespace PathPart

/-- Names stand behind all other parts. -/
def rank : PathPart → Nat
  | root => 0
  | here => 1
  | up => 2
  | name _ => 3

def written : PathPart → String
  | root => ""
  | here => "."
  | up => ".."
  | name text => text

instance : Ord PathPart := ⟨compareLex (compareOn rank) (compareOn written)⟩

end PathPart

/-- What an entry can be called: without slashes, and none of the names that lead nowhere new. -/
def IsEntryName (name : String) : Prop := '/' ∉ name.toList ∧ name ∉ ["", ".", ".."]

instance : DecidablePred IsEntryName := fun name =>
  inferInstanceAs (Decidable ('/' ∉ name.toList ∧ name ∉ ["", ".", ".."]))

namespace Path

def pieces : List Char → List (List Char)
  | [] => [[]]
  | c :: rest =>
    if c = '/' then [] :: pieces rest
    else
      match pieces rest with
      | [] => [[c]]
      | piece :: more => (c :: piece) :: more

def partOfPiece? (piece : List Char) : Option PathPart :=
  if piece = [] ∨ piece = ['.'] then none
  else if piece = ['.', '.'] then some .up
  else some (.name (String.ofList piece))

def parts (path : String) : List PathPart :=
  let all := pieces path.toList
  let front : List PathPart :=
    match path.toList with
    | '/' :: _ => [.root]
    | _ => if all.head? = some ['.'] then [.here] else []
  front ++ all.filterMap partOfPiece?

def fileName? (path : String) : Option String :=
  match (parts path).getLast? with
  | some (.name text) => some text
  | _ => none

/-- All parts but the last, if there is one to leave out. -/
def parentParts? (path : String) : Option (List PathPart) :=
  match (parts path).getLast? with
  | none => none
  | some .root => none
  | some _ => some (parts path).dropLast

def order (p q : String) : Ordering := compare (parts p) (parts q)

/-- What follows the last dot of a file name, if something stands before that dot. -/
def extension? (path : String) : Option String := do
  let name ← fileName? path
  let backward := name.toList.reverse
  match backward.dropWhile (· != '.') with
  | '.' :: _ :: _ => some (String.ofList (backward.takeWhile (· != '.')).reverse)
  | _ => none

def join (directory entry : String) : String :=
  match directory.toList.getLast? with
  | none => entry
  | some '/' => directory ++ entry
  | some _ => directory ++ "/" ++ entry

def ofParts (ps : List PathPart) : String :=
  if ps = [.root] then "/" else String.intercalate "/" (ps.map (·.written))

/-- Drops pieces that count for nothing from both ends. -/
def trimPieces (ps : List (List Char)) : List (List Char) :=
  let void (piece : List Char) : Bool := (partOfPiece? piece).isNone
  ((ps.dropWhile void).reverse.dropWhile void).reverse

/-- Leaves out pieces up to and including the first `count` that count. -/
def dropParts : Nat → List (List Char) → List (List Char)
  | 0, ps => ps
  | _ + 1, [] => []
  | count + 1, piece :: rest =>
    if (partOfPiece? piece).isNone then dropParts (count + 1) rest else dropParts count rest

/-- The path relative to a base that it begins with, part by part. What lies between its remaining
parts stays as it is written. -/
def relativeTo? (path base : String) : Option String :=
  let baseParts := parts base
  if baseParts.isPrefixOf (parts path) then
    if baseParts.isEmpty then
      if parts path = [.root] then some "/"
      else
        let all := pieces path.toList
        let tail := (all.tail.reverse.dropWhile fun piece => (partOfPiece? piece).isNone).reverse
        some (String.ofList (List.intercalate ['/'] (all.take 1 ++ tail)))
    else
      let counted := baseParts.filter fun p => p != .root && p != .here
      let rest := dropParts counted.length (pieces path.toList)
      some (String.ofList (List.intercalate ['/'] (trimPieces rest)))
  else none

end Path

end InterpolationLint
