import NameResolution.Text.Shapeless

/-!
# Quoted text

Text is quoted for messages and for inspection: it stands between double quotes, the quote and the
backslash get a backslash, the common controls their letter, and every other character that cannot
be shown as itself is written by its code point in hexadecimal.
-/

namespace NameResolution.Text

/-- How one character is written between quotes. -/
def escape (c : Char) : List Char :=
  match c with
  | '\x00' => ['\\', '0']
  | '\t' => ['\\', 't']
  | '\n' => ['\\', 'n']
  | '\r' => ['\\', 'r']
  | '"' => ['\\', '"']
  | '\\' => ['\\', '\\']
  | c =>
    if isShown c then [c]
    else ['\\', 'u', '\x7b'] ++ Nat.toDigits 16 c.toNat ++ ['\x7d']

/-- The text between double quotes. -/
def quote (text : String) : String :=
  String.ofList (['"'] ++ text.toList.flatMap escape ++ ['"'])

end NameResolution.Text
