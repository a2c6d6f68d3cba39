import Mathlib.Data.String.Basic

/-!
# The order of texts is that of their bytes

Texts are compared character by character.  Their bytes in UTF-8 are in the same order: the first
byte of a character tells how many there are, greater characters have as many bytes or more, and
those with as many are counted through from the first byte to the last.

* `encode_lt_encode` is about two characters, whatever comes after them.
* `bytesOf_lt_iff` is about texts.
-/

set_option autoImplicit false

namespace SongBundle

/-- The bytes of a text in UTF-8. -/
def bytesOf (text : String) : List UInt8 := text.toUTF8.data.toList

theorem bytesOf_eq (text : String) : bytesOf text = text.toList.flatMap String.utf8EncodeChar := by
  have hencode : text.toUTF8 = text.toList.utf8Encode := String.utf8Encode_toList.symm
  rw [bytesOf, hencode, List.utf8Encode, List.toList_data_toByteArray]

theorem ofNat_lt_ofNat {n m : Nat} (hn : n < 256) (hm : m < 256) :
    UInt8.ofNat n < UInt8.ofNat m ↔ n < m := by
  rw [UInt8.lt_iff_toNat_lt, UInt8.toNat_ofNat', UInt8.toNat_ofNat', Nat.mod_eq_of_lt hn,
    Nat.mod_eq_of_lt hm]

theorem ofNat_eq_ofNat {n m : Nat} (hn : n < 256) (hm : m < 256) :
    UInt8.ofNat n = UInt8.ofNat m ↔ n = m := by
  rw [← UInt8.toNat_inj, UInt8.toNat_ofNat', UInt8.toNat_ofNat', Nat.mod_eq_of_lt hn,
    Nat.mod_eq_of_lt hm]

/-- A lesser character has lesser bytes, whatever follows. -/
theorem encode_lt_encode {c d : Char} (h : c < d) (rest rest' : List UInt8) :
    String.utf8EncodeChar c ++ rest < String.utf8EncodeChar d ++ rest' := by
  have hlt : c.val.toNat < d.val.toNat := h
  have hd : d.val.toNat < 1114112 := by
    rcases d.valid with hd | hd <;> omega
  rw [String.utf8EncodeChar, String.utf8EncodeChar]
  generalize c.val.toNat = v at hlt ⊢
  generalize d.val.toNat = w at hlt hd ⊢
  have hdigits {n : Nat} (hn : n < 1114112) : n / 64 / 64 = n / 4096 ∧
      n / 4096 / 64 = n / 262144 ∧ n / 262144 % 8 = n / 262144 :=
    ⟨Nat.div_div_eq_div_mul n 64 64, Nat.div_div_eq_div_mul n 4096 64,
      Nat.mod_eq_of_lt (by omega)⟩
  have hv := hdigits (hlt.trans hd)
  have hw := hdigits hd
  -- one case for each pair of lengths; those that are out of order contradict the hypothesis
  split_ifs <;> first
    | omega
    | simp (disch := omega) only [List.cons_append, List.nil_append, List.cons_lt_cons_iff,
        ofNat_lt_ofNat, ofNat_eq_ofNat]
      omega

theorem flatMap_encode_lt {cs ds : List Char} (h : cs < ds) :
    cs.flatMap String.utf8EncodeChar < ds.flatMap String.utf8EncodeChar := by
  induction h with
  | @nil d ds =>
    rw [List.flatMap_nil, List.flatMap_cons]
    obtain ⟨b, bs, hbs⟩ := List.exists_cons_of_ne_nil (String.utf8EncodeChar_ne_nil (c := d))
    rw [hbs]
    exact List.Lex.nil
  | rel hlt => exact encode_lt_encode hlt _ _
  | cons _ ih => exact List.append_left_lt ih

/-- The order of texts is that of their bytes. -/
theorem bytesOf_lt_iff {a b : String} : bytesOf a < bytesOf b ↔ a < b := by
  have hmono {a b : String} (h : a < b) : bytesOf a < bytesOf b := by
    rw [bytesOf_eq, bytesOf_eq]
    exact flatMap_encode_lt (String.lt_iff.1 h)
  refine ⟨fun h ↦ ?_, hmono⟩
  rcases lt_trichotomy a b with hlt | rfl | hgt
  · exact hlt
  · exact absurd h (List.lt_irrefl _)
  · exact absurd (hmono hgt) (List.lt_asymm h)

end SongBundle
