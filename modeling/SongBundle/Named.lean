import SongBundle.Json.Decode

/-!
# Enumerations with names

The values of an enumeration are written by name.  `Named` lists the values with their names, and
everything else about them follows: `Named.find?` looks a name up, `Named.decoder` and `Named.toJson`
read and write it, and `Named.unknown` words the complaint about a name that is none of them.
-/

set_option autoImplicit false

namespace SongBundle

/-- A type with finitely many named values. -/
class Named (α : Type) where
  /-- What a value of the type is called in messages. -/
  what : String
  /-- All values, in order. -/
  all : List α
  name : α → String

namespace Named

variable {α : Type} [Named α]

/-- The value with a given name. -/
def find? (s : String) : Option α := (Named.all : List α).find? fun a ↦ name a == s

/-- The fault of a name that belongs to no value. -/
def unknown (α : Type) [Named α] (s : String) : Json.Fault := .unknownName (what α) s

/-- The value with a given name, or a complaint. -/
def ofName (s : String) : Except Json.Fault α :=
  match find? s with
  | some a => .ok a
  | none => .error (unknown α s)

/-- Reads a value by its name. -/
def decoder : Json.Decoder α := fun j ↦ do ofName (← Json.Decoder.text j)

/-- Reads a value that is the key of a member. -/
def key (lexeme : String) : Except Json.Fault α := do ofName (← Json.Decoder.lexeme lexeme)

/-- Writes a value by its name. -/
def toJson (a : α) : Json := .ofString (name a)

end Named

end SongBundle
