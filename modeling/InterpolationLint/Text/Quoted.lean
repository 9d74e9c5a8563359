import InterpolationLint.Text.Printable

/-!
# Quoted text in messages

A text shown in a message stands between double quotes. The quote and the backslash are escaped,
a few controls have short names, and other characters that are not printable are shown as their
number in hexadecimal.
-/

namespace InterpolationLint

def quotedChar (c : Char) : List Char :=
  match c with
  | '"' => ['\\', '"']
  | '\\' => ['\\', '\\']
  | '\t' => ['\\', 't']
  | '\n' => ['\\', 'n']
  | '\r' => ['\\', 'r']
  | '\x00' => ['\\', '0']
  | c => if isPrintable c then [c] else ['\\', 'u', '\x7b'] ++ Nat.toDigits 16 c.toNat ++ ['\x7d']

def quoted (text : String) : String :=
  String.ofList ('"' :: text.toList.flatMap quotedChar ++ ['"'])

end InterpolationLint
