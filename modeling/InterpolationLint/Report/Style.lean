/-!
# Styled text for terminals

A styled text stands between the control sequence that starts its style and the one that ends every
style. Where the text itself ends every style, its own style starts again. Without colours the text
stands alone.
-/

namespace InterpolationLint

inductive Style where
  | bold
  | dimmed
  | red
  | green
  | yellow
  | blue
  | cyan
deriving DecidableEq, Repr

def Style.code : Style → String
  | bold => "1"
  | dimmed => "2"
  | red => "31"
  | green => "32"
  | yellow => "33"
  | blue => "34"
  | cyan => "36"

def styleSequence (codes : List String) : String :=
  "\x1b[" ++ String.intercalate ";" codes ++ "m"

def styleReset : String := styleSequence ["0"]

/-- Puts `style` behind every reset in a text. -/
def restyle (style : List Char) : List Char → List Char
  | [] => []
  | '\x1b' :: '[' :: '0' :: 'm' :: rest =>
    '\x1b' :: '[' :: '0' :: 'm' :: style ++ restyle style rest
  | c :: rest => c :: restyle style rest

def styled (color : Bool) (styles : List Style) (text : String) : String :=
  if color then
    let start := styleSequence (styles.map Style.code)
    start ++ String.ofList (restyle start.toList text.toList) ++ styleReset
  else text

def padRight (width : Nat) (text : String) : String :=
  text ++ String.ofList (List.replicate (width - text.length) ' ')

end InterpolationLint
