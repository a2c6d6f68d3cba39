import SongBundle.Json.Number
import SongBundle.Json.Text
import SongBundle.Text.Quoted

/-!
# Faults of a JSON document

`Json.Fault` lists what can be wrong with a document that should hold a certain type of value, and
`Json.Fault.message` words it.  `Json.found` names the kind of value that stands where another kind
was wanted.
-/

set_option autoImplicit false

namespace SongBundle.Json

/-- The kind of value met in a document. -/
inductive Found where
  | null
  | bool (value : Bool)
  | integer (value : Int)
  | real (value : Float)
  | string (value : String)
  | sequence
  | map

/-- A fault of a document. -/
inductive Fault where
  /-- The text is not JSON, or a number or string in it has no value. -/
  | malformed
  | missingField (name : String)
  | duplicateField (name : String)
  | unexpected (found : Found) (wanted : String)
  | outOfRange (value : Int) (wanted : String)
  /-- A record given as an array ends before a field without default. -/
  | tooShort (length : Nat) (record : String) (fields : Nat)
  /-- A string is none of the names of an enumeration. -/
  | unknownName (what : String) (name : String)

/-- The decimal digits of a whole number with its sign. -/
def intText : Int → String
  | .ofNat n => natText n
  | .negSucc n => "-" ++ natText (n + 1)

/-- The words for a kind of value. -/
def Found.text : Found → String
  | .null => "null"
  | .bool true => "boolean `true`"
  | .bool false => "boolean `false`"
  | .integer n => s!"integer `{intText n}`"
  | .real x => s!"floating point `{doubleText x}`"
  | .string s => "string " ++ quoted s
  | .sequence => "sequence"
  | .map => "map"

/-- The words for the number of fields of a record. -/
def elementsText (n : Nat) : String :=
  if n = 1 then "1 element" else s!"{natText n} elements"

/-- The text of a fault. -/
def Fault.message : Fault → String
  | .malformed => "the text is not JSON"
  | .missingField name => s!"missing field `{name}`"
  | .duplicateField name => s!"duplicate field `{name}`"
  | .unexpected found wanted => s!"invalid type: {found.text}, expected {wanted}"
  | .outOfRange value wanted => s!"invalid value: integer `{intText value}`, expected {wanted}"
  | .tooShort length record fields =>
    s!"invalid length {natText length}, expected struct {record} with {elementsText fields}"
  | .unknownName what name => s!"unknown {what} `{name}`"

/-- The kind of a value, unless the value is no JSON. -/
def found : Json → Except Fault Found
  | .null => .ok .null
  | .bool b => .ok (.bool b)
  | .number l =>
    match Number.read? l with
    | some (.natural n) => .ok (.integer n)
    | some (.negative n) => .ok (.integer (-n))
    | some (.real x) => .ok (.real x)
    | none => .error .malformed
  | .string l =>
    match unescape? l with
    | some s => .ok (.string s)
    | none => .error .malformed
  | .array .. => .ok .sequence
  | .object .. => .ok .map
  | .torn => .error .malformed

end SongBundle.Json
