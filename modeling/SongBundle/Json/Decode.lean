import SongBundle.Json.Fault
import SongBundle.Json.Reader

/-!
# Reading typed values

A `Json.Decoder` reads one type of value from a tree and reports the first fault it meets, going
from left to right.  `Json.Record` describes the fields of a record: a record may stand as an object,
whose unknown members are skipped, or as an array of its fields in declaration order.

* `Json.Decoder.u32`, `Json.Decoder.text`, `Json.Decoder.list`, `Json.Decoder.table` and the like
  read the basic types.
* `Json.Record.required` and `Json.Record.optional` describe one field each and are joined with
  `<$>` and `<*>`.
* `Json.decode` reads a whole text.
-/

set_option autoImplicit false

namespace SongBundle.Json

/-- Reads a value of type `α` from a tree. -/
abbrev Decoder (α : Type) := Json → Except Fault α

/-- The text goes on being JSON up to here. -/
def unlessTorn {α : Type} (ending : Ending) (a : α) : Except Fault α :=
  match ending with
  | .closed => .ok a
  | .torn => .error .malformed

/-- Passes over a value that nobody reads. -/
def skip : Json → Except Fault Unit
  | .torn => .error .malformed
  | .array _ ending => unlessTorn ending ()
  | .object _ ending => unlessTorn ending ()
  | _ => .ok ()

namespace Decoder

variable {α κ : Type}

/-- Reports that a value is of another kind than wanted. -/
def refuse (wanted : String) (j : Json) : Except Fault α := do
  throw (.unexpected (← found j) wanted)

/-- A whole number within bounds. -/
def whole (wanted : String) (least greatest : Int) : Decoder Int
  | .number l =>
    match Number.read? l with
    | some (.natural n) => check n
    | some (.negative n) => check (-n)
    | some (.real x) => .error (.unexpected (.real x) wanted)
    | none => .error .malformed
  | j => refuse wanted j
where
  /-- Checks the bounds. -/
  check (n : Int) : Except Fault Int :=
    if least ≤ n ∧ n ≤ greatest then .ok n else .error (.outOfRange n wanted)

/-- An unsigned number of 32 bits. -/
def u32 : Decoder UInt32 := fun j ↦ do
  return UInt32.ofNat (← whole "u32" 0 (UInt32.size - 1) j).toNat

/-- A signed number of 64 bits. -/
def i64 : Decoder Int64 := fun j ↦ do
  return Int64.ofInt (← whole "i64" Int64.minValue.toInt Int64.maxValue.toInt j)

/-- The place of an item in a list. -/
def position : Decoder Nat := fun j ↦ do
  return (← whole "usize" 0 (UInt64.size - 1) j).toNat

/-- A double-precision number. -/
def double : Decoder Float
  | .number l =>
    match Number.read? l with
    | some (.natural n) => .ok (UInt64.ofNat n).toFloat
    | some (.negative n) => .ok (-(UInt64.ofNat n).toFloat)
    | some (.real x) => .ok x
    | none => .error .malformed
  | j => refuse "f64" j

/-- A single-precision number. -/
def single : Decoder Float32
  | .number l =>
    match Number.read? l with
    | some (.natural n) => .ok (UInt64.ofNat n).toFloat32
    | some (.negative n) => .ok (-(UInt64.ofNat n).toFloat32)
    | some (.real x) => .ok (FloatValue.ofDouble x).toSingle
    | none => .error .malformed
  | j => refuse "f32" j

def bool : Decoder Bool
  | .bool b => .ok b
  | j => refuse "a boolean" j

/-- The string that a lexeme stands for. -/
def lexeme (l : String) : Except Fault String :=
  match unescape? l with
  | some s => .ok s
  | none => .error .malformed

/-- A string, called `wanted` where something else stands. -/
def stringAs (wanted : String) : Decoder String
  | .string l => lexeme l
  | j => refuse wanted j

def text : Decoder String := stringAs "a string"

/-- The path of a file or directory. -/
def path : Decoder String := stringAs "path string"

/-- `null`, or a value. -/
def option (value : Decoder α) : Decoder (Option α)
  | .null => .ok none
  | j => some <$> value j

def list (item : Decoder α) : Decoder (List α)
  | .array items ending => do unlessTorn ending (← items.mapM item)
  | j => refuse "a sequence" j

/-- A set of names, listed in any order. -/
def names : Decoder Names := fun j ↦ Names.ofList <$> list text j

/-- A member of an object that is read as a table. -/
def member (key : String → Except Fault κ) (value : Decoder α) (m : String × Json) :
    Except Fault (κ × α) := do
  let k ← key m.1
  let a ← value m.2
  return (k, a)

/-- A table; of several members with one key the last one counts. -/
def table [Ord κ] [Std.TransOrd κ] [Std.LawfulEqOrd κ] (key : String → Except Fault κ)
    (value : Decoder α) : Decoder (Table κ α)
  | .object members ending => do
    let pairs ← members.mapM (member key value)
    unlessTorn ending (Table.ofList pairs)
  | j => refuse "a map" j

/-- A key that is an unsigned number of 32 bits: a number as JSON writes it, and nothing else. -/
def u32Key (l : String) : Except Fault UInt32 :=
  match scanNumber l.toList with
  | none => .error .malformed
  | some (digits, rest) => do
    let n ← u32 (.number (String.ofList digits))
    if rest.isEmpty then return n else throw .malformed

end Decoder

/-! ## Records -/

/-- The fields of a record, and how they are read one member at a time. -/
structure Record (α : Type) : Type 1 where
  /-- What is known of the fields so far. -/
  State : Type
  start : State
  /-- Takes in a member, if its key names a field. -/
  accept : State → String → Json → Option (Except Fault State)
  /-- The record, once every member has been taken in. -/
  finish : State → Except Fault α
  /-- The number of fields. -/
  width : Nat
  /-- Reads the fields from the items of an array, given how many came before them and the fault
  of an array of that length; also gives the items left over. -/
  listed : (Nat → Fault) → Nat → List Json → Except Fault (α × List Json)

namespace Record

variable {α β : Type}

/-- A field whose absence is made up for by `absent`. -/
def field (name : String) (value : Decoder α) (absent : Option α) : Record α where
  State := Option α
  start := none
  accept seen key j :=
    if key = name then
      some (if seen.isSome then .error (.duplicateField name) else some <$> value j)
    else none
  finish seen :=
    match seen, absent with
    | some a, _ => .ok a
    | none, some a => .ok a
    | none, none => .error (.missingField name)
  width := 1
  listed short before
    | j :: items => do return (← value j, items)
    | [] =>
      match absent with
      | some a => .ok (a, [])
      | none => .error (short before)

/-- A field that must be there. -/
def required (name : String) (value : Decoder α) : Record α := field name value none

/-- A field with a default. -/
def optional (name : String) (value : Decoder α) (default : α) : Record α :=
  field name value (some default)

/-- A field that holds nothing when it is absent or `null`; in an array it must be there. -/
def nullable (name : String) (value : Decoder α) : Record (Option α) :=
  { field name (Decoder.option value) (some none) with
    listed := (field name (Decoder.option value) none).listed }

/-- A field that may be absent or `null`, in an array too. -/
def nullableAtEnd (name : String) (value : Decoder α) : Record (Option α) :=
  optional name (Decoder.option value) none

/-- A record without fields. -/
def constant (a : α) : Record α where
  State := Unit
  start := ()
  accept _ _ _ := none
  finish _ := .ok a
  width := 0
  listed _ _ items := .ok (a, items)

/-- The fields of two records, one after the other. -/
def apply (f : Record (α → β)) (r : Record α) : Record β where
  State := f.State × r.State
  start := (f.start, r.start)
  accept s key j :=
    match f.accept s.1 key j with
    | some s₁ => some ((·, s.2) <$> s₁)
    | none => (r.accept s.2 key j).map fun s₂ ↦ (s.1, ·) <$> s₂
  finish s := do
    let g ← f.finish s.1
    let a ← r.finish s.2
    return g a
  width := f.width + r.width
  listed short before items := do
    let (g, items) ← f.listed short before items
    let (a, items) ← r.listed short (before + f.width) items
    return (g a, items)

/-- Turns the fields into a value. -/
def map (f : α → β) (r : Record α) : Record β :=
  { r with
    finish := fun s ↦ f <$> r.finish s
    listed := fun short before items ↦ (fun p ↦ (f p.1, p.2)) <$> r.listed short before items }

instance : Functor Record where
  map := map

instance : Seq Record where
  seq f r := f.apply (r ())

/-- Takes in the members of an object, skipping those that name no field. -/
def acceptAll (r : Record α) : r.State → List (String × Json) → Except Fault r.State
  | s, [] => .ok s
  | s, (l, j) :: members => do
    let key ← Decoder.lexeme l
    match r.accept s key j with
    | some next => r.acceptAll (← next) members
    | none => do
      skip j
      r.acceptAll s members

/-- Reads a record of a given name. -/
def decoder (name : String) (r : Record α) : Decoder α
  | .object members ending => do
    let s ← r.acceptAll r.start members
    unlessTorn ending ()
    r.finish s
  | .array items ending => do
    let short (n : Nat) : Fault :=
      match ending with
      | .closed => .tooShort n name r.width
      | .torn => .malformed
    let (a, rest) ← r.listed short 0 items
    if rest.isEmpty then unlessTorn ending a else throw .malformed
  | j => Decoder.refuse s!"struct {name}" j

end Record

/-- Reads a text that holds one value and nothing else. -/
def decode {α : Type} (value : Decoder α) (text : String) : Except Fault α := do
  let d := read text
  let a ← value d.root
  if d.complete then return a else throw .malformed

end SongBundle.Json
