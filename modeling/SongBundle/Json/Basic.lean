import SongBundle.Decimal.Style
import SongBundle.Table

/-!
# JSON values

`Json` holds a JSON text as a tree.  Two decisions shape it.

* Numbers and strings stay *as written*: a `number` keeps its characters and a `string` what stands
  between its quotes.  What they mean is decided where they are used (`Json.Number`, `Json.Text`),
  so a number too large for any use, or half of a surrogate pair, does no harm in a member that
  nobody reads.
* A text that stops being JSON is kept as far as it goes: `torn` stands where a value should have
  been, and the lists around it end in `Ending.torn`.  A reader of the tree therefore meets the
  faults of a text in the order in which they stand there.

`Json.ofString`, `Json.ofNat`, `Json.record` and their companions build the values that are written.
-/

set_option autoImplicit false

namespace SongBundle

/-- How a list of items or members ends. -/
inductive Ending where
  /-- By its closing bracket. -/
  | closed
  /-- Where the text stops being JSON. -/
  | torn
deriving DecidableEq, Repr

/-- A JSON text, as far as it is one. -/
inductive Json where
  | null
  | bool (value : Bool)
  | number (lexeme : String)
  | string (lexeme : String)
  | array (items : List Json) (ending : Ending)
  | object (members : List (String × Json)) (ending : Ending)
  | torn

instance : Inhabited Json := ⟨.null⟩

/-! ## Strings between quotes -/

namespace Json

/-- A hexadecimal digit in lower case. -/
def hexDigit (n : Nat) : Char :=
  if n < 10 then Char.ofNat (48 + n) else Char.ofNat (87 + n)

/-- A character as it stands between quotes. -/
def escapeChar (c : Char) : List Char :=
  match c with
  | '"' => ['\\', '"']
  | '\\' => ['\\', '\\']
  | '\x08' => ['\\', 'b']
  | '\t' => ['\\', 't']
  | '\n' => ['\\', 'n']
  | '\x0c' => ['\\', 'f']
  | '\r' => ['\\', 'r']
  | c =>
    if c.toNat < 32 then
      ['\\', 'u', '0', '0', hexDigit (c.toNat / 16), hexDigit (c.toNat % 16)]
    else [c]

/-- A string as it stands between quotes. -/
def escape (s : String) : String := String.ofList (s.toList.flatMap escapeChar)

/-! ## Values to be written -/

/-- The decimal digits of a number. -/
def natText (n : Nat) : String := String.ofList (Nat.toDigits 10 n)

def ofString (s : String) : Json := .string (escape s)

def ofNat (n : Nat) : Json := .number (natText n)

def ofInt : Int → Json
  | .ofNat n => .number (natText n)
  | .negSucc n => .number ("-" ++ natText (n + 1))

/-- Double-precision numbers are written plainly from `0.00001` up to sixteen digits before the
point. -/
def doubleStyle : Style where
  tie := .even
  plain e := -5 ≤ e && e ≤ 15
  wholeEnding := ".0"
  undefined := ""
  infinite := ""

/-- Single-precision numbers are written plainly from `0.000001` up to thirteen digits before the
point. -/
def singleStyle : Style := { doubleStyle with plain := fun e ↦ -6 ≤ e && e ≤ 12 }

/-- The text of a finite double-precision number. -/
def doubleText (x : Float) : String := doubleStyle.write .double (.ofDouble x)

/-- A double-precision number; JSON has no text for one that is not finite. -/
def ofDouble (x : Float) : Json :=
  if (FloatValue.ofDouble x).isFinite then .number (doubleText x) else .null

/-- A single-precision number; JSON has no text for one that is not finite. -/
def ofSingle (x : Float32) : Json :=
  if (FloatValue.ofSingle x).isFinite then
    .number (singleStyle.write .single (.ofSingle x))
  else .null

def ofList {α : Type} (f : α → Json) (xs : List α) : Json := .array (xs.map f) .closed

def ofOption {α : Type} (f : α → Json) : Option α → Json
  | some a => f a
  | none => .null

/-- A record, its fields in the order given. -/
def record (fields : List (String × Json)) : Json :=
  .object (fields.map fun e ↦ (escape e.1, e.2)) .closed

/-- A table whose keys are written as strings, in key order. -/
def ofTable {κ α : Type} [Ord κ] (key : κ → String) (f : α → Json) (t : Table κ α) : Json :=
  record (t.toList.map fun e ↦ (key e.1, f e.2))

/-- A set of names as an ascending array. -/
def ofNames (s : Names) : Json := ofList ofString s.toList

end Json

end SongBundle
