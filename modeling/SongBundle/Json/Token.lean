import SongBundle.Json.Basic

/-!
# The tokens of a JSON text

`Json.tokens` splits a text into brackets, separators, strings, numbers and the three words.  Where
no token can be read it ends with `Token.bad`.

A string that is never closed, or that holds a control character or an unknown escape, still gives a
`string` token for the part that was read, followed by `bad`; its lexeme then ends in a lone
backslash, which no string does.
-/

set_option autoImplicit false

namespace SongBundle.Json

/-- The units a JSON text is made of. -/
inductive Token where
  | openArray
  | closeArray
  | openObject
  | closeObject
  | comma
  | colon
  | string (lexeme : String)
  | number (lexeme : String)
  | null
  | bool (value : Bool)
  /-- Text that begins no token. -/
  | bad
deriving DecidableEq, Repr

/-! ## Strings -/

/-- Whether a character is a hexadecimal digit. -/
def isHexDigit (c : Char) : Bool :=
  ('0' ≤ c && c ≤ '9') || ('a' ≤ c && c ≤ 'f') || ('A' ≤ c && c ≤ 'F')

/-- Whether a character may follow a backslash, `u` apart. -/
def isShortEscape (c : Char) : Bool := "\"\\/bfnrt".toList.contains c

/-- Reads up to the closing quote: what stands before it and the text after it.  A string that
breaks off yields no text after it and a lone backslash at its end. -/
def scanString : List Char → List Char × Option (List Char)
  | [] => (['\\'], none)
  | c :: rest =>
    if c = '"' then ([], some rest)
    else if c = '\\' then
      match rest with
      | e :: rest =>
        if e = 'u' then
          match rest with
          | h₁ :: h₂ :: h₃ :: h₄ :: rest =>
            if isHexDigit h₁ && isHexDigit h₂ && isHexDigit h₃ && isHexDigit h₄ then
              let (s, after) := scanString rest
              (c :: e :: h₁ :: h₂ :: h₃ :: h₄ :: s, after)
            else (['\\'], none)
          | _ => (['\\'], none)
        else if isShortEscape e then
          let (s, after) := scanString rest
          (c :: e :: s, after)
        else (['\\'], none)
      | [] => (['\\'], none)
    else if c.toNat < 32 then (['\\'], none)
    else
      let (s, after) := scanString rest
      (c :: s, after)

theorem length_lt_of_snd_scanString {cs after : List Char} (h : (scanString cs).2 = some after) :
    after.length < cs.length := by
  fun_induction scanString cs generalizing after with
  | case2 rest =>
    rw [Option.some.injEq] at h
    simp [h]
  | case3 h₁ h₂ h₃ h₄ rest hex s t hs _ ih =>
    simp only [hs, List.length_cons] at h ih ⊢
    have := ih h
    omega
  | case6 e rest _ _ s t hs _ ih =>
    simp only [hs, List.length_cons] at h ih ⊢
    have := ih h
    omega
  | case10 c rest _ _ _ s t hs ih =>
    simp only [hs, List.length_cons] at h ih ⊢
    have := ih h
    omega
  | _ => simp at h

theorem length_lt_of_scanString {cs s after : List Char} (h : scanString cs = (s, some after)) :
    after.length < cs.length :=
  length_lt_of_snd_scanString (by rw [h])

/-! ## Numbers -/

/-- Splits off the leading digits. -/
def scanDigits (cs : List Char) : List Char × List Char :=
  (cs.takeWhile Char.isDigit, cs.dropWhile Char.isDigit)

/-- The part of a number before point and exponent: no digit may follow a leading zero. -/
def scanWhole (cs : List Char) : Option (List Char × List Char) :=
  match scanDigits cs with
  | ([], _) => none
  | ('0' :: _ :: _, _) => none
  | split => some split

/-- A point with the digits that must follow it, or nothing. -/
def scanFraction : List Char → Option (List Char × List Char)
  | '.' :: cs =>
    match scanDigits cs with
    | ([], _) => none
    | (ds, rest) => some ('.' :: ds, rest)
  | cs => some ([], cs)

/-- The sign an exponent may have. -/
def scanSign : List Char → List Char × List Char
  | '+' :: cs => (['+'], cs)
  | '-' :: cs => (['-'], cs)
  | cs => ([], cs)

/-- An exponent, or nothing. -/
def scanExponent : List Char → Option (List Char × List Char)
  | [] => some ([], [])
  | c :: cs =>
    if c = 'e' ∨ c = 'E' then
      let (sign, cs) := scanSign cs
      match scanDigits cs with
      | ([], _) => none
      | (ds, rest) => some (c :: sign ++ ds, rest)
    else some ([], c :: cs)

/-- The minus sign a number may have. -/
def scanMinus : List Char → List Char × List Char
  | '-' :: cs => (['-'], cs)
  | cs => ([], cs)

/-- Reads a number: its characters and the text after it. -/
def scanNumber (cs : List Char) : Option (List Char × List Char) := do
  let (minus, cs) := scanMinus cs
  let (whole, cs) ← scanWhole cs
  let (fraction, cs) ← scanFraction cs
  let (exponent, cs) ← scanExponent cs
  return (minus ++ whole ++ fraction ++ exponent, cs)

theorem length_dropWhile_le (p : Char → Bool) (cs : List Char) :
    (cs.dropWhile p).length ≤ cs.length :=
  (List.dropWhile_sublist p).length_le

theorem length_lt_of_scanWhole {cs ds rest : List Char} (h : scanWhole cs = some (ds, rest)) :
    rest.length < cs.length := by
  have hsplit : cs.takeWhile Char.isDigit ++ cs.dropWhile Char.isDigit = cs :=
    List.takeWhile_append_dropWhile
  have hlength := congrArg List.length hsplit
  rw [List.length_append] at hlength
  rw [scanWhole] at h
  split at h
  · simp at h
  · simp at h
  · rename_i hne _
    rw [Option.some.injEq] at h
    have hds : cs.takeWhile Char.isDigit = ds := congrArg Prod.fst h
    have hrest : cs.dropWhile Char.isDigit = rest := congrArg Prod.snd h
    rw [hds, hrest] at hlength
    have : ds ≠ [] := fun hnil ↦ hne rest (by rw [h, hnil])
    have := List.length_pos_iff.2 this
    omega

theorem length_le_of_scanFraction {cs ds rest : List Char}
    (h : scanFraction cs = some (ds, rest)) : rest.length ≤ cs.length := by
  rw [scanFraction.eq_def] at h
  split at h
  · rename_i cs
    have hle := length_dropWhile_le Char.isDigit cs
    split at h
    · simp at h
    · rename_i hd
      have : cs.dropWhile Char.isDigit = rest := by
        have := congrArg Prod.snd hd
        simp_all [scanDigits]
      rw [List.length_cons]
      rw [this] at hle
      omega
  · simp_all

theorem length_scanSign_le (cs : List Char) : (scanSign cs).2.length ≤ cs.length := by
  rw [scanSign.eq_def]
  split <;> simp

theorem length_le_of_scanExponent {cs ds rest : List Char}
    (h : scanExponent cs = some (ds, rest)) : rest.length ≤ cs.length := by
  rw [scanExponent.eq_def] at h
  split at h
  · simp_all
  · rename_i c cs
    split at h
    · have hsign := length_scanSign_le cs
      have hle := length_dropWhile_le Char.isDigit (scanSign cs).2
      simp only [scanDigits] at h
      split at h
      · simp at h
      · rename_i hd
        have := congrArg Prod.snd hd
        simp only [Option.some.injEq, Prod.mk.injEq] at h this
        rw [List.length_cons, ← h.2, ← this]
        omega
    · simp_all

theorem length_scanMinus_le (cs : List Char) : (scanMinus cs).2.length ≤ cs.length := by
  rw [scanMinus.eq_def]
  split <;> simp

theorem length_lt_of_scanNumber {cs ds rest : List Char}
    (h : scanNumber cs = some (ds, rest)) : rest.length < cs.length := by
  simp only [scanNumber, Option.bind_eq_bind, Option.bind_eq_some_iff, Prod.exists] at h
  obtain ⟨whole, cs₁, h₁, fraction, cs₂, h₂, exponent, cs₃, h₃, h₄⟩ := h
  have := length_scanMinus_le cs
  have := length_lt_of_scanWhole h₁
  have := length_le_of_scanFraction h₂
  have := length_le_of_scanExponent h₃
  simp only [Option.pure_def, Option.some.injEq, Prod.mk.injEq] at h₄
  rw [← h₄.2]
  omega

/-! ## The whole text -/

/-- Whether a character separates tokens. -/
def isBlank (c : Char) : Bool := c = ' ' || c = '\n' || c = '\t' || c = '\r'

/-- The tokens of a text, up to the first place where there is none. -/
def tokens (cs : List Char) : List Token :=
  match cs with
  | [] => []
  | c :: rest =>
    if isBlank c then tokens rest
    else
      match c with
      | '[' => .openArray :: tokens rest
      | ']' => .closeArray :: tokens rest
      | '{' => .openObject :: tokens rest
      | '}' => .closeObject :: tokens rest
      | ',' => .comma :: tokens rest
      | ':' => .colon :: tokens rest
      | '"' =>
        match _h : scanString rest with
        | (s, some after) => .string (String.ofList s) :: tokens after
        | (s, none) => [.string (String.ofList s), .bad]
      | 'n' =>
        match rest with
        | 'u' :: 'l' :: 'l' :: after => .null :: tokens after
        | _ => [.bad]
      | 't' =>
        match rest with
        | 'r' :: 'u' :: 'e' :: after => .bool true :: tokens after
        | _ => [.bad]
      | 'f' =>
        match rest with
        | 'a' :: 'l' :: 's' :: 'e' :: after => .bool false :: tokens after
        | _ => [.bad]
      | _ =>
        match _h : scanNumber (c :: rest) with
        | some (ds, after) => .number (String.ofList ds) :: tokens after
        | none => [.bad]
termination_by cs.length
decreasing_by
  all_goals first
    | (simp only [List.length_cons]; omega)
    | exact Nat.lt_succ_of_lt (length_lt_of_scanString _h)
    | exact length_lt_of_scanNumber _h

variable {c : Char} {rest : List Char}

theorem tokens_blank (h : isBlank c = true) : tokens (c :: rest) = tokens rest := by
  rw [tokens.eq_def]
  simp only [if_pos h]

/-- The token that a bracket or a separator is. -/
def mark? (c : Char) : Option Token :=
  match c with
  | '[' => some .openArray
  | ']' => some .closeArray
  | '{' => some .openObject
  | '}' => some .closeObject
  | ',' => some .comma
  | ':' => some .colon
  | _ => none

theorem tokens_mark {t : Token} (h : mark? c = some t) :
    tokens (c :: rest) = t :: tokens rest := by
  rw [tokens.eq_def]
  unfold mark? at h
  split at h
  case h_7 => cases h
  all_goals
    cases h
    rfl

end SongBundle.Json
