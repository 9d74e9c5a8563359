/-!
# JSON values

JSON values without fractions, and their text over several lines: two spaces for each level, one
entry a line, and nothing between the brackets of an empty list or object.
-/

namespace InterpolationLint

inductive JsonValue where
  | text (value : String)
  | number (value : Nat)
  | list (items : List JsonValue)
  | object (fields : List (String × JsonValue))

namespace JsonValue

def escapedChar (c : Char) : List Char :=
  match c with
  | '"' => ['\\', '"']
  | '\\' => ['\\', '\\']
  | '\x08' => ['\\', 'b']
  | '\x0c' => ['\\', 'f']
  | '\n' => ['\\', 'n']
  | '\r' => ['\\', 'r']
  | '\t' => ['\\', 't']
  | c =>
    if c.toNat < 0x20 then
      ['\\', 'u', '0', '0', Nat.digitChar (c.toNat / 16), Nat.digitChar (c.toNat % 16)]
    else [c]

def escaped (s : String) : String :=
  String.ofList ('"' :: s.toList.flatMap escapedChar ++ ['"'])

def newLine (level : Nat) : String := String.ofList ('\n' :: List.replicate (2 * level) ' ')

def block (level : Nat) (left right : String) (entries : List String) : String :=
  if entries.isEmpty then left ++ right
  else
    left ++ newLine (level + 1) ++ String.intercalate ("," ++ newLine (level + 1)) entries
      ++ newLine level ++ right

mutual

def render (level : Nat) : JsonValue → String
  | text s => escaped s
  | number n => toString n
  | list items => block level "[" "]" (renderItems (level + 1) items)
  | object fields => block level "\x7b" "\x7d" (renderFields (level + 1) fields)

def renderItems (level : Nat) : List JsonValue → List String
  | [] => []
  | item :: rest => item.render level :: renderItems level rest

def renderFields (level : Nat) : List (String × JsonValue) → List String
  | [] => []
  | (name, value) :: rest =>
    (escaped name ++ ": " ++ value.render level) :: renderFields level rest

end

end JsonValue

end InterpolationLint
