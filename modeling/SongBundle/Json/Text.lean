import SongBundle.Json.Basic

/-!
# What stands between quotes

`Json.unescape?` gives the string that a lexeme stands for.  An escape names a UTF-16 code unit, so
reading goes in two steps: `pieces?` takes the escapes apart and `joinPieces?` pairs up surrogates.
Half a pair has no meaning, nor has an escape that is cut short.
-/

set_option autoImplicit false

namespace SongBundle.Json

/-- A part of a string: a character written as itself or by a short escape, or a code unit written
in hexadecimal. -/
inductive Piece where
  | char (c : Char)
  | unit (n : Nat)
deriving DecidableEq, Repr

/-- The value of a hexadecimal digit in either case. -/
def hexValue? (c : Char) : Option Nat :=
  if '0' ≤ c ∧ c ≤ '9' then some (c.toNat - 48)
  else if 'a' ≤ c ∧ c ≤ 'f' then some (c.toNat - 87)
  else if 'A' ≤ c ∧ c ≤ 'F' then some (c.toNat - 55)
  else none

/-- The code unit written by four hexadecimal digits. -/
def unitValue? (a b c d : Char) : Option Nat :=
  match hexValue? a, hexValue? b, hexValue? c, hexValue? d with
  | some a, some b, some c, some d => some (4096 * a + 256 * b + 16 * c + d)
  | _, _, _, _ => none

/-- The character that a short escape stands for. -/
def shortEscape? (c : Char) : Option Char :=
  match c with
  | '"' => some '"'
  | '\\' => some '\\'
  | '/' => some '/'
  | 'b' => some '\x08'
  | 'f' => some '\x0c'
  | 'n' => some '\n'
  | 'r' => some '\r'
  | 't' => some '\t'
  | _ => none

/-- Takes a lexeme apart. -/
def pieces? : List Char → Option (List Piece)
  | [] => some []
  | c :: rest =>
    if c = '\\' then
      match rest with
      | [] => none
      | e :: rest =>
        if e = 'u' then
          match rest with
          | a :: b :: c :: d :: rest =>
            match unitValue? a b c d, pieces? rest with
            | some n, some ps => some (.unit n :: ps)
            | _, _ => none
          | _ => none
        else
          match shortEscape? e, pieces? rest with
          | some c, some ps => some (.char c :: ps)
          | _, _ => none
    else
      match pieces? rest with
      | some ps => some (.char c :: ps)
      | none => none

/-- Whether a code unit is the first half of a surrogate pair. -/
def isHighSurrogate (n : Nat) : Bool := 0xD800 ≤ n && n < 0xDC00

/-- Whether a code unit is the second half of a surrogate pair. -/
def isLowSurrogate (n : Nat) : Bool := 0xDC00 ≤ n && n < 0xE000

/-- Joins surrogate pairs. -/
def joinPieces? : List Piece → Option (List Char)
  | [] => some []
  | .char c :: ps =>
    match joinPieces? ps with
    | some cs => some (c :: cs)
    | none => none
  | .unit n :: ps =>
    if isHighSurrogate n then
      match ps with
      | .unit m :: ps =>
        if isLowSurrogate m then
          match joinPieces? ps with
          | some cs => some (Char.ofNat (0x10000 + 0x400 * (n - 0xD800) + (m - 0xDC00)) :: cs)
          | none => none
        else none
      | _ => none
    else if isLowSurrogate n then none
    else
      match joinPieces? ps with
      | some cs => some (Char.ofNat n :: cs)
      | none => none

/-- The string that a lexeme stands for. -/
def unescape? (lexeme : String) : Option String :=
  match pieces? lexeme.toList with
  | some ps => (joinPieces? ps).map String.ofList
  | none => none

end SongBundle.Json
