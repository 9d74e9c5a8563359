/-!
# Lines of a text

A line ends at a newline, which is not part of it, and neither is one carriage return right before
the newline. A last line without a newline counts if it is not empty, and keeps its carriage return.
-/

namespace InterpolationLint

def splitLines : List Char → List (List Char)
  | [] => []
  | '\n' :: rest => [] :: splitLines rest
  | '\r' :: '\n' :: rest => [] :: splitLines rest
  | c :: rest =>
    match splitLines rest with
    | [] => [[c]]
    | line :: lines => (c :: line) :: lines

def unlines (lines : List String) : String := String.join (lines.map (· ++ "\n"))

end InterpolationLint
