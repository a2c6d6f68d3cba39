import SongBundle.Json.Basic

/-!
# Writing JSON

`Json.compact` writes a value without blanks, `Json.pretty` with one item or member a line, indented
by two spaces a level.
-/

set_option autoImplicit false

namespace SongBundle.Json

/-- A string in its quotes. -/
def quoteText (lexeme : String) : List Char := '"' :: lexeme.toList ++ ['"']

/-- The text of a truth value. -/
def boolText (b : Bool) : List Char := if b then "true".toList else "false".toList

/-! ## Compact -/

mutual

/-- The characters of a value written without blanks. -/
def compactChars : Json → List Char
  | .null => "null".toList
  | .bool b => boolText b
  | .number l => l.toList
  | .string l => quoteText l
  | .array items e => '[' :: compactItems items ++ closing ']' e
  | .object members e => '{' :: compactMembers members ++ closing '}' e
  | .torn => []

/-- The items of an array, separated by commas. -/
def compactItems : List Json → List Char
  | [] => []
  | [j] => compactChars j
  | j :: js => compactChars j ++ ',' :: compactItems js

/-- The members of an object, separated by commas. -/
def compactMembers : List (String × Json) → List Char
  | [] => []
  | [(k, j)] => quoteText k ++ ':' :: compactChars j
  | (k, j) :: ms => quoteText k ++ ':' :: compactChars j ++ ',' :: compactMembers ms

/-- The closing bracket, which a torn list lacks. -/
def closing (bracket : Char) : Ending → List Char
  | .closed => [bracket]
  | .torn => []

end

/-- A value written without blanks. -/
def compact (j : Json) : String := String.ofList (compactChars j)

/-! ## Indented -/

/-- A new line at a level of indentation. -/
def newline (level : Nat) : List Char := '\n' :: List.replicate (2 * level) ' '

mutual

/-- The characters of a value written at a level of indentation. -/
def prettyChars (level : Nat) : Json → List Char
  | .array (j :: js) e =>
    '[' :: prettyItems (level + 1) (j :: js) ++ newline level ++ closing ']' e
  | .object (m :: ms) e =>
    '{' :: prettyMembers (level + 1) (m :: ms) ++ newline level ++ closing '}' e
  | j => compactChars j

/-- The items of an array, each on a line of its own. -/
def prettyItems (level : Nat) : List Json → List Char
  | [] => []
  | [j] => newline level ++ prettyChars level j
  | j :: js => newline level ++ prettyChars level j ++ ',' :: prettyItems level js

/-- The members of an object, each on a line of its own. -/
def prettyMembers (level : Nat) : List (String × Json) → List Char
  | [] => []
  | [(k, j)] => newline level ++ quoteText k ++ ':' :: ' ' :: prettyChars level j
  | (k, j) :: ms =>
    newline level ++ quoteText k ++ ':' :: ' ' :: prettyChars level j ++
      ',' :: prettyMembers level ms

end

/-- A value written with indentation. -/
def pretty (j : Json) : String := String.ofList (prettyChars 0 j)

end SongBundle.Json
