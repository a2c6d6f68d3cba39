import Mathlib.Data.List.TakeWhile
import Mathlib.Data.Nat.Digits.Defs
import SongBundle.Json.Number
import SongBundle.Json.Text
import SongBundle.Json.Token

/-!
# Strings and whole numbers as they are written

A lexeme is `Quotable` if the scanner takes it as one string when it stands between quotes, and a
`Numeral` if the scanner takes it as one number wherever it ends.  What `Json.escape` and
`Json.ofInt` write is of these kinds, and reading it gives back the string (`unescape?_escape`) and
the number (`read?_natText`, `read?_minus_natText`).
-/

set_option autoImplicit false

namespace SongBundle.Json

/-! ## Strings -/

/-- Whether a lexeme is read as one string when it stands between quotes. -/
def Quotable (lexeme : String) : Prop :=
  ∀ rest, scanString (lexeme.toList ++ '"' :: rest) = (lexeme.toList, some rest)

theorem isHexDigit_hexDigit {n : Nat} (h : n < 16) : isHexDigit (hexDigit n) = true := by
  have hall : ∀ n < 16, isHexDigit (hexDigit n) = true := by decide
  exact hall n h

theorem hexValue?_hexDigit {n : Nat} (h : n < 16) : hexValue? (hexDigit n) = some n := by
  have hall : ∀ n < 16, hexValue? (hexDigit n) = some n := by decide
  exact hall n h

/-- The scanner takes a character in one piece, however it is written. -/
theorem scanString_escapeChar (c : Char) (cs : List Char) :
    scanString (escapeChar c ++ cs) = (escapeChar c ++ (scanString cs).1, (scanString cs).2) := by
  unfold escapeChar
  split
  -- the last case is that of the characters without a short escape
  case h_8 hquote hbackslash _ _ _ _ _ =>
    split
    · rename_i hcontrol
      have hhigh := isHexDigit_hexDigit (n := c.toNat / 16) (by omega)
      have hlow := isHexDigit_hexDigit (n := c.toNat % 16) (by omega)
      have hzero : isHexDigit '0' = true := by decide
      simp [scanString, hhigh, hlow, hzero]
    · rename_i hprintable
      simp only [List.cons_append, List.nil_append]
      rw [scanString.eq_def]
      simp only [if_neg hquote, if_neg hbackslash, if_neg hprintable]
  all_goals
    simp only [List.cons_append, List.nil_append]
    rw [scanString.eq_def]
    simp [isShortEscape]

theorem quotable_escape (s : String) : Quotable (escape s) := by
  intro rest
  rw [escape, String.toList_ofList]
  induction s.toList with
  | nil =>
    rw [scanString.eq_def]
    simp
  | cons c cs ih => rw [List.flatMap_cons, List.append_assoc, scanString_escapeChar, ih]

/-- A character is one piece as it is written, and the piece stands for the character. -/
theorem exists_piece (c : Char) :
    ∃ p, (∀ cs, pieces? (escapeChar c ++ cs) = (pieces? cs).map (p :: ·)) ∧
      ∀ ps, joinPieces? (p :: ps) = (joinPieces? ps).map (c :: ·) := by
  have hchar : ∀ (d : Char) ps, joinPieces? (.char d :: ps) = (joinPieces? ps).map (d :: ·) := by
    intro d ps
    rw [joinPieces?]
    cases joinPieces? ps <;> rfl
  unfold escapeChar
  split
  case h_8 hquote hbackslash _ _ _ _ _ =>
    split
    · rename_i hcontrol
      have hhigh := hexValue?_hexDigit (n := c.toNat / 16) (by omega)
      have hlow := hexValue?_hexDigit (n := c.toNat % 16) (by omega)
      have hzero : hexValue? '0' = some 0 := by decide
      have hvalue : 16 * (c.toNat / 16) + c.toNat % 16 = c.toNat := by omega
      refine ⟨.unit c.toNat, fun cs ↦ ?_, fun ps ↦ ?_⟩
      · simp only [List.cons_append, List.nil_append]
        rw [pieces?]
        simp only [unitValue?, hhigh, hlow, hzero, if_true]
        cases pieces? cs <;> simp [hvalue]
      · have hhigh : isHighSurrogate c.toNat = false := by simp [isHighSurrogate]; omega
        have hlow : isLowSurrogate c.toNat = false := by simp [isLowSurrogate]; omega
        rw [joinPieces?.eq_def]
        simp only [hhigh, hlow, Bool.false_eq_true, if_false, Char.ofNat_toNat]
        cases joinPieces? ps <;> rfl
    · refine ⟨.char c, fun cs ↦ ?_, hchar c⟩
      simp only [List.cons_append, List.nil_append]
      rw [pieces?.eq_def]
      simp only [if_neg hbackslash]
      cases pieces? cs <;> rfl
  all_goals
    refine ⟨.char _, fun cs ↦ ?_, hchar _⟩
    simp only [List.cons_append, List.nil_append]
    rw [pieces?.eq_def]
    simp only [shortEscape?, if_true, Char.reduceEq, if_false]
    cases pieces? cs <;> rfl

/-- **A string is read back from what is written for it.** -/
theorem unescape?_escape (s : String) : unescape? (escape s) = some s := by
  have hpieces : ∃ ps, pieces? (s.toList.flatMap escapeChar) = some ps ∧
      joinPieces? ps = some s.toList := by
    induction s.toList with
    | nil => exact ⟨[], rfl, rfl⟩
    | cons c cs ih =>
      obtain ⟨ps, hps, hjoin⟩ := ih
      obtain ⟨p, hp, hc⟩ := exists_piece c
      refine ⟨p :: ps, ?_, ?_⟩
      · rw [List.flatMap_cons, hp, hps, Option.map_some]
      · rw [hc, hjoin, Option.map_some]
  obtain ⟨ps, hps, hjoin⟩ := hpieces
  rw [unescape?, escape, String.toList_ofList, hps]
  simp [hjoin]

/-! ## Whole numbers -/

/-- Whether a number ends where a text begins. -/
def EndsNumber (rest : List Char) : Prop :=
  ∀ c ∈ rest.head?, c.isDigit = false ∧ c ≠ '.' ∧ c ≠ 'e' ∧ c ≠ 'E'

/-- Whether a lexeme is read as one number wherever it ends. -/
def Numeral (lexeme : String) : Prop :=
  (∃ c ∈ lexeme.toList.head?, c = '-' ∨ c.isDigit = true) ∧
    ∀ rest, EndsNumber rest → scanNumber (lexeme.toList ++ rest) = some (lexeme.toList, rest)

theorem toList_natText (n : Nat) : (natText n).toList = Nat.toDigits 10 n := by
  rw [natText, String.toList_ofList]

theorem isDigit_of_mem_natText {n : Nat} {c : Char} (h : c ∈ (natText n).toList) :
    c.isDigit = true := by
  rw [toList_natText] at h
  exact Nat.isDigit_of_mem_toDigits (by decide) (by decide) h

theorem natText_ne_nil (n : Nat) : (natText n).toList ≠ [] := by
  rw [toList_natText]
  exact Nat.toDigits_ne_nil

/-- The digits of a number, the last one split off. -/
theorem toDigits_eq (n : Nat) (h : 10 ≤ n) :
    Nat.toDigits 10 n = Nat.toDigits 10 (n / 10) ++ [Nat.digitChar (n % 10)] :=
  Nat.toDigits_of_base_le (by decide) h

/-- No number of several digits starts with a zero. -/
theorem natText_ne_zero_cons {n : Nat} {d : Char} {ds : List Char} :
    (natText n).toList ≠ '0' :: d :: ds := by
  rw [toList_natText]
  have hhead : ∀ m, 0 < m → (Nat.toDigits 10 m).head? ≠ some '0' := by
    intro m
    induction m using Nat.strongRecOn with
    | ind m ih =>
      intro hpos
      by_cases hm : m < 10
      · rw [Nat.toDigits_of_lt_base hm]
        have hall : ∀ m < 10, 0 < m → [Nat.digitChar m].head? ≠ some '0' := by decide
        exact hall m hm hpos
      · rw [toDigits_eq m (by omega), List.head?_append,
          List.head?_eq_some_head Nat.toDigits_ne_nil, Option.some_or,
          ← List.head?_eq_some_head]
        exact ih (m / 10) (by omega) (by omega)
  intro h
  cases n with
  | zero => simp [Nat.toDigits_of_lt_base] at h
  | succ n => exact hhead (n + 1) (by omega) (by rw [h]; rfl)

theorem scanDigits_append {ds rest : List Char} (hds : ∀ c ∈ ds, c.isDigit = true)
    (hrest : ∀ c ∈ rest.head?, c.isDigit = false) : scanDigits (ds ++ rest) = (ds, rest) := by
  rw [scanDigits, List.takeWhile_append_of_pos hds, List.dropWhile_append_of_pos hds]
  cases rest with
  | nil => simp
  | cons c cs =>
    have hc : c.isDigit = false := hrest c rfl
    simp [hc]

theorem scanWhole_natText (n : Nat) {rest : List Char} (h : EndsNumber rest) :
    scanWhole ((natText n).toList ++ rest) = some ((natText n).toList, rest) := by
  rw [scanWhole, scanDigits_append (fun c hc ↦ isDigit_of_mem_natText hc) fun c hc ↦ (h c hc).1]
  split
  · rename_i hnil
    exact absurd (congrArg Prod.fst hnil) (natText_ne_nil n)
  · rename_i hzero
    exact absurd (congrArg Prod.fst hzero) natText_ne_zero_cons
  · rfl

theorem scanFraction_of_endsNumber {rest : List Char} (h : EndsNumber rest) :
    scanFraction rest = some ([], rest) := by
  unfold scanFraction
  split
  · exact absurd rfl (h '.' rfl).2.1
  · rfl

theorem scanExponent_of_endsNumber {rest : List Char} (h : EndsNumber rest) :
    scanExponent rest = some ([], rest) := by
  cases rest with
  | nil => rfl
  | cons c cs =>
    have hc := (h c rfl).2.2
    simp [scanExponent, hc]

theorem scanMinus_natText (n : Nat) (rest : List Char) :
    scanMinus ((natText n).toList ++ rest) = ([], (natText n).toList ++ rest) := by
  unfold scanMinus
  split
  · rename_i cs hminus
    cases htext : (natText n).toList with
    | nil => exact absurd htext (natText_ne_nil n)
    | cons d ds =>
      rw [htext, List.cons_append, List.cons.injEq] at hminus
      have hd : d.isDigit = true := isDigit_of_mem_natText (by rw [htext]; exact List.mem_cons_self)
      rw [hminus.1] at hd
      exact absurd hd (by decide)
  · rfl

theorem numeral_natText (n : Nat) : Numeral (natText n) := by
  refine ⟨?_, fun rest h ↦ ?_⟩
  · exact ⟨_, List.head?_eq_some_head (natText_ne_nil n),
      .inr (isDigit_of_mem_natText (List.head_mem _))⟩
  · simp [scanNumber, scanMinus_natText, scanWhole_natText n h, scanFraction_of_endsNumber h,
      scanExponent_of_endsNumber h]

theorem numeral_minus_natText (n : Nat) : Numeral ("-" ++ natText n) := by
  refine ⟨⟨'-', by simp [String.toList_append], .inl rfl⟩, fun rest h ↦ ?_⟩
  rw [String.toList_append]
  simp [scanNumber, scanMinus, scanWhole_natText n h, scanFraction_of_endsNumber h,
    scanExponent_of_endsNumber h]

namespace Number

theorem digitValue_digitChar {d : Nat} (h : d < 10) : digitValue (Nat.digitChar d) = d := by
  have hall : ∀ d < 10, digitValue (Nat.digitChar d) = d := by decide
  exact hall d h

/-- Digits that were all taken can be followed by more. -/
theorem absorb_append {n m : Nat} {ds : List Nat} (es : List Nat)
    (h : absorb n ds = (m, ds.length)) :
    absorb n (ds ++ es) = ((absorb m es).1, ds.length + (absorb m es).2) := by
  induction ds generalizing n with
  | nil =>
    obtain rfl : n = m := congrArg Prod.fst h
    simp
  | cons d ds ih =>
    rw [absorb] at h
    split at h
    · rename_i hfits
      have htail : absorb (10 * n + d) ds = (m, ds.length) := by
        rw [Prod.ext_iff] at h ⊢
        simpa using h
      rw [List.cons_append, absorb, if_pos hfits, ih htail]
      simp [Nat.add_right_comm]
    · simp at h

/-- The digits of a number below `2 ^ 64` are all taken, and give the number. -/
theorem absorb_toDigits {n : Nat} (h : n < UInt64.size) :
    absorb 0 ((Nat.toDigits 10 n).map digitValue) =
      (n, ((Nat.toDigits 10 n).map digitValue).length) := by
  induction n using Nat.strongRecOn with
  | ind n ih =>
    by_cases hn : n < 10
    · rw [Nat.toDigits_of_lt_base hn]
      simp [absorb, digitValue_digitChar hn, h]
    · have hlast : digitValue (Nat.digitChar (n % 10)) = n % 10 :=
        digitValue_digitChar (by omega)
      have hvalue : 10 * (n / 10) + n % 10 = n := by omega
      rw [toDigits_eq n (by omega), List.map_append,
        absorb_append _ (ih (n / 10) (by omega) (by omega))]
      simp [absorb, hlast, hvalue, h]

/-- A whole number has neither a point nor an exponent. -/
theorem parts_natText (n : Nat) (negative : Bool) :
    parts (if negative then '-' :: (natText n).toList else (natText n).toList) =
      ⟨negative, (Nat.toDigits 10 n).map digitValue, none, none⟩ := by
  have hdigit : ∀ c ∈ Nat.toDigits 10 n, c.isDigit = true := fun c hc ↦
    Nat.isDigit_of_mem_toDigits (by decide) (by decide) hc
  have hmark : ∀ c ∈ Nat.toDigits 10 n, (!isExponentMark c) = true := by
    intro c hc
    by_cases he : c = 'e' ∨ c = 'E'
    · rcases he with rfl | rfl <;> exact absurd (hdigit _ hc) (by decide)
    · simpa [isExponentMark] using he
  have hpoint : ∀ c ∈ Nat.toDigits 10 n, decide (c ≠ '.') = true := by
    intro c hc
    by_cases hp : c = '.'
    · exact absurd (hp ▸ hdigit c hc) (by decide)
    · simpa using hp
  have hminus : (Nat.toDigits 10 n).head? ≠ some '-' := fun h ↦
    absurd (hdigit '-' (List.mem_of_head? h)) (by decide)
  have hmantissa := List.takeWhile_eq_self_iff.2 hmark
  have hexponent := List.dropWhile_eq_nil_iff.2 hmark
  have hwhole := List.takeWhile_eq_self_iff.2 hpoint
  have hfraction := List.dropWhile_eq_nil_iff.2 hpoint
  rw [toList_natText]
  cases negative with
  | false =>
    simp only [Bool.false_eq_true, if_false, parts, hminus, decide_false, hmantissa, hexponent,
      hwhole, hfraction, List.isEmpty_nil, if_true]
  | true =>
    simp only [if_true, parts, List.head?_cons, List.tail_cons, decide_true, hmantissa, hexponent,
      hwhole, hfraction, List.isEmpty_nil]

/-- **A whole number that 64 bits hold is read back.** -/
theorem read?_natText {n : Nat} (h : n < UInt64.size) :
    read? (natText n) = some (.natural n) := by
  have hparts := parts_natText n false
  simp only [Bool.false_eq_true, if_false] at hparts
  rw [read?, hparts, ofParts?]
  simp [absorb_toDigits h]

/-- **The negative of a whole number is read back, down to `-2 ^ 63`.** -/
theorem read?_minus_natText {n : Nat} (hpos : 0 < n) (h : n ≤ 2 ^ 63) :
    read? ("-" ++ natText n) = some (.negative n) := by
  have hparts := parts_natText n true
  simp only [if_true] at hparts
  have hsize : n < UInt64.size := by
    have : UInt64.size = 2 ^ 64 := rfl
    omega
  have hfits : ¬(n = 0 ∨ 1 <<< 63 < n) := by
    have : 1 <<< 63 = 2 ^ 63 := rfl
    omega
  rw [read?, String.toList_append]
  show ofParts? (parts ('-' :: (natText n).toList)) = _
  rw [hparts, ofParts?]
  simp only [absorb_toDigits hsize, Nat.sub_self, ne_eq, not_true, if_false, Bool.not_true,
    Bool.false_eq_true, hfits]

end Number

end SongBundle.Json
