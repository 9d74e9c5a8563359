import InterpolationLint.Glob.Basic

/-!
# Matching glob patterns

A pattern matches the bytes of a whole path. Each token is described by what may be left of a text
after it.
-/

namespace InterpolationLint

def separatorByte : UInt8 := 0x2f

def afterBytes : List UInt8 → List UInt8 → List (List UInt8)
  | [], text => [text]
  | _ :: _, [] => []
  | b :: bytes, c :: text => if b = c then afterBytes bytes text else []

def afterAny : List UInt8 → List (List UInt8)
  | [] => [[]]
  | b :: rest => (b :: rest) :: afterAny rest

def afterAnySeparator : List UInt8 → List (List UInt8)
  | [] => []
  | b :: rest => if b = separatorByte then rest :: afterAnySeparator rest
    else afterAnySeparator rest

/-- The bytes a range of a class covers, as closed ranges. A character beyond ASCII stands for its
bytes one by one, so that the range goes from the last byte of its first character to the first
byte of its last. -/
def classByteRanges (first last : Char) : List (UInt8 × UInt8) :=
  let low := String.utf8EncodeChar first
  let high := String.utf8EncodeChar last
  if first = last then low.map fun b => (b, b)
  else
    low.dropLast.map (fun b => (b, b)) ++ [(low.getLastD 0, high.headD 0)]
      ++ high.tail.map fun b => (b, b)

def inClass (negated : Bool) (ranges : List (Char × Char)) (b : UInt8) : Bool :=
  let member := ranges.any fun (first, last) =>
    (classByteRanges first last).any fun (low, high) => low ≤ b && b ≤ high
  member != negated

mutual

def GlobToken.isVoid : GlobToken → Bool
  | .alternatives branches => allVoid branches
  | _ => false

def voidBranch : List GlobToken → Bool
  | [] => true
  | token :: rest => token.isVoid && voidBranch rest

def allVoid : List (List GlobToken) → Bool
  | [] => true
  | branch :: rest => voidBranch branch && allVoid rest

end

mutual

/-- What may be left of a text after a token. Alternatives without any pattern are left out; if
none remain the group is empty. -/
def GlobToken.after : GlobToken → List UInt8 → List (List UInt8)
  | .literal c, text => afterBytes (String.utf8EncodeChar c) text
  | .anyByte, text => text.tail?.toList
  | .anyBytes, text => afterAny text
  | .leadingDirectories, text => text :: afterAnySeparator text
  | .trailingDirectories, text =>
    match text with
    | [] => []
    | b :: rest => if b = separatorByte then afterAny rest else []
  | .innerDirectories, text =>
    match text with
    | [] => []
    | b :: rest => if b = separatorByte then rest :: afterAnySeparator rest else []
  | .byteClass negated ranges, text =>
    match text with
    | [] => []
    | b :: rest => if inClass negated ranges b then [rest] else []
  | .alternatives branches, text =>
    if allVoid branches then [text] else afterSome branches text

/-- What may be left of any of several texts after a whole pattern. A token goes over each text
that may be left before it once, however many ways lead to it. -/
def afterPattern : List GlobToken → List (List UInt8) → List (List UInt8)
  | [], texts => texts
  | token :: rest, texts =>
    afterPattern rest (texts.flatMap fun text => token.after text).eraseDups

def afterSome : List (List GlobToken) → List UInt8 → List (List UInt8)
  | [], _ => []
  | branch :: rest, text =>
    (if voidBranch branch then [] else afterPattern branch [text]) ++ afterSome rest text

end

/-- A pattern matches a text if it can leave nothing of it. Leading directories alone match every
text. -/
def globMatches (pattern : List GlobToken) (text : List UInt8) : Bool :=
  match pattern with
  | [.leadingDirectories] => true
  | _ => (afterPattern pattern [text]).contains []

end InterpolationLint
