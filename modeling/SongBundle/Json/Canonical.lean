import SongBundle.Json.Decode

/-!
# Canonical values

Two texts of one value may differ in the order of members, in the spelling of numbers and in the
escapes of strings.  `Json.canonical` gives every value one form: members stand in ascending order and
the last one with a key counts, and numbers and strings are written as this library writes them.
-/

set_option autoImplicit false

namespace SongBundle.Json

/-- A number in canonical form. -/
def canonicalNumber (lexeme : String) : Except Fault Json :=
  match Number.read? lexeme with
  | some (.natural n) => .ok (.ofNat n)
  | some (.negative n) => .ok (.ofInt (-n))
  | some (.real x) => .ok (.ofDouble x)
  | none => .error .malformed

mutual

/-- A value in canonical form. -/
def canonical : Json → Except Fault Json
  | .null => .ok .null
  | .bool b => .ok (.bool b)
  | .number l => canonicalNumber l
  | .string l => ofString <$> Decoder.lexeme l
  | .array items ending => do
    let items ← canonicalItems items
    unlessTorn ending (.array items .closed)
  | .object members ending => do
    let members ← canonicalMembers members
    unlessTorn ending (.ofTable id id (Table.ofList members))
  | .torn => .error .malformed

/-- The items of an array in canonical form. -/
def canonicalItems : List Json → Except Fault (List Json)
  | [] => .ok []
  | j :: js => do
    let j ← canonical j
    return j :: (← canonicalItems js)

/-- The members of an object with their keys as they are meant, and their values in canonical
form. -/
def canonicalMembers : List (String × Json) → Except Fault (List (String × Json))
  | [] => .ok []
  | (l, j) :: members => do
    let key ← Decoder.lexeme l
    let j ← canonical j
    return (key, j) :: (← canonicalMembers members)

end

end SongBundle.Json
