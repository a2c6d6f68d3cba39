import SongBundle.Text.Printable

/-!
# Texts quoted in messages

`quoted` puts a text between double quotes so that every character of it can be seen: quotes and
backslashes are escaped, and characters that do not show are written by their code point.
-/

set_option autoImplicit false

namespace SongBundle

/-- A character as it stands in a quoted text. -/
def quotedChar (c : Char) : List Char :=
  match c with
  | '\x00' => ['\\', '0']
  | '\t' => ['\\', 't']
  | '\r' => ['\\', 'r']
  | '\n' => ['\\', 'n']
  | '\\' => ['\\', '\\']
  | '"' => ['\\', '"']
  | c =>
    if isShown c then [c]
    else '\\' :: 'u' :: '{' :: Nat.toDigits 16 c.toNat ++ ['}']

/-- A text between double quotes. -/
def quoted (s : String) : String := String.ofList ('"' :: s.toList.flatMap quotedChar ++ ['"'])

end SongBundle
