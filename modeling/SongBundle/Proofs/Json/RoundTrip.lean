import SongBundle.Event
import SongBundle.Proofs.Json.ReadPretty
import SongBundle.Proofs.Outcome
import SongBundle.Proofs.Table

/-!
# Decoders undo writers

`Decoder.Reads value j a` says that `j` is sound and that the decoder finds `a` in it.  There is one
lemma for each way to write a value: strings, numbers, lists, options, tables, names of enumerations
and records.  A record is read field by field: `Record.Fills r fields a` says that the given fields
make up the record `a`, and a field added at its end makes up one more argument (`Fills.required`).
-/

set_option autoImplicit false

namespace SongBundle

open Json

namespace Json

/-! ## What is written is sound -/

theorem sound_ofString (s : String) : Sound (ofString s) := .string (quotable_escape s)

theorem sound_ofInt (n : Int) : Sound (ofInt n) := by
  cases n with
  | ofNat n => exact .number (numeral_natText n)
  | negSucc n => exact .number (numeral_minus_natText (n + 1))

theorem sound_record {fields : List (String × Json)} (h : ∀ e ∈ fields, Sound e.2) :
    Sound (record fields) := by
  refine .object (fun m hm ↦ ?_) fun m hm ↦ ?_
  · obtain ⟨e, -, rfl⟩ := List.mem_map.1 hm
    exact quotable_escape e.1
  · obtain ⟨e, he, rfl⟩ := List.mem_map.1 hm
    exact h e he

end Json

namespace Json.Decoder

variable {α κ : Type}

/-- A decoder finds a value in a sound tree. -/
structure Reads (value : Decoder α) (j : Json) (a : α) : Prop where
  sound : Sound j
  decodes : value j = .ok a

/-- What a decoder finds in a tree it finds in the text of the tree. -/
theorem Reads.decode {value : Decoder α} {j : Json} {a : α} (h : Reads value j a) :
    Json.decode value (pretty j) = .ok a :=
  decode_pretty h.sound h.decodes

/-! ## Basic types -/

theorem lexeme_escape (s : String) : lexeme (escape s) = .ok s := by
  rw [lexeme, unescape?_escape]

theorem reads_text (s : String) : Reads text (ofString s) s :=
  ⟨sound_ofString s, lexeme_escape s⟩

theorem reads_bool (b : Bool) : Reads Decoder.bool (.bool b) b := ⟨.bool b, rfl⟩

/-- A whole number that 64 bits hold is found by every decoder that allows it. -/
theorem whole_ofInt {wanted : String} {least greatest n : Int} (hleast : least ≤ n)
    (hgreatest : n ≤ greatest) (hlow : -(2 ^ 63) ≤ n) (hhigh : n < 2 ^ 64) :
    whole wanted least greatest (ofInt n) = .ok n := by
  cases n with
  | ofNat m =>
    have hm : m < UInt64.size := Int.ofNat_lt.1 hhigh
    simp only [ofInt, whole, Number.read?_natText hm]
    exact if_pos ⟨hleast, hgreatest⟩
  | negSucc m =>
    have hm : m + 1 ≤ 2 ^ 63 := by omega
    simp only [ofInt, whole, Number.read?_minus_natText (Nat.succ_pos m) hm]
    exact if_pos ⟨hleast, hgreatest⟩

theorem reads_u32 (n : UInt32) : Reads u32 (ofWord n) n := by
  refine ⟨sound_ofInt n.toNat, ?_⟩
  have hn := n.toNat_lt
  have hsize : UInt32.size = 2 ^ 32 := rfl
  have hwhole : whole "u32" 0 (UInt32.size - 1) (ofInt n.toNat) = .ok (n.toNat : Int) :=
    whole_ofInt (by omega) (by omega) (by omega) (by omega)
  show (do return UInt32.ofNat (← whole "u32" 0 (UInt32.size - 1) (ofInt n.toNat)).toNat) = _
  rw [hwhole]
  simp [pure, Except.pure, bind, Except.bind]

theorem reads_i64 (n : Int64) : Reads i64 (ofInt n.toInt) n := by
  refine ⟨sound_ofInt n.toInt, ?_⟩
  have hlow := Int64.le_toInt n
  have hhigh := Int64.toInt_lt n
  have hwhole : whole "i64" Int64.minValue.toInt Int64.maxValue.toInt (ofInt n.toInt) =
      .ok n.toInt :=
    whole_ofInt (Int64.minValue_le_toInt n) (Int64.toInt_le n) (by omega) (by omega)
  rw [i64, hwhole]
  simp [pure, Except.pure, bind, Except.bind]

theorem reads_position {n : Nat} (h : n < UInt64.size) : Reads position (ofNat n) n := by
  refine ⟨sound_ofInt n, ?_⟩
  have hsize : UInt64.size = 2 ^ 64 := rfl
  have hwhole : whole "usize" 0 (UInt64.size - 1) (ofInt n) = .ok (n : Int) :=
    whole_ofInt (by omega) (by omega) (by omega) (by omega)
  show (do return (← whole "usize" 0 (UInt64.size - 1) (ofInt n)).toNat) = _
  rw [hwhole]
  rfl

/-! ## Collections -/

theorem reads_list {item : Decoder α} {f : α → Json} {as : List α}
    (h : ∀ a ∈ as, Reads item (f a) a) : Reads (list item) (ofList f as) as := by
  refine ⟨.array fun j hj ↦ ?_, ?_⟩
  · obtain ⟨a, ha, rfl⟩ := List.mem_map.1 hj
    exact (h a ha).sound
  · have hitems : (as.map f).mapM item = .ok as := by
      rw [Outcome.mapM_eq_ok_iff, List.forall₂_map_left_iff, List.forall₂_same]
      exact fun a ha ↦ (h a ha).decodes
    rw [ofList, list, hitems]
    rfl

theorem reads_names (s : Names) : Reads names (ofNames s) s := by
  have hlist : Reads (list text) (ofList ofString s.toList) s.toList :=
    reads_list fun a _ ↦ reads_text a
  refine ⟨hlist.sound, ?_⟩
  rw [names, ofNames, hlist.decodes]
  exact congrArg Except.ok s.ofList_toList

/-- A table is found again if its keys and values are. -/
theorem reads_table [Ord κ] [Std.TransOrd κ] [Std.LawfulEqOrd κ] {name : κ → String}
    {key : String → Except Fault κ} {value : Decoder α} {f : α → Json} {t : Table κ α}
    (hkey : ∀ k, key (escape (name k)) = .ok k) (h : ∀ e ∈ t.toList, Reads value (f e.2) e.2) :
    Reads (table key value) (ofTable name f t) t := by
  refine ⟨sound_record fun e he ↦ ?_, ?_⟩
  · obtain ⟨e, hmem, rfl⟩ := List.mem_map.1 he
    exact (h e hmem).sound
  · have hmembers : ((t.toList.map fun e ↦ (name e.1, f e.2)).map fun e ↦ (escape e.1, e.2)).mapM
        (member key value) = .ok t.toList := by
      rw [Outcome.mapM_eq_ok_iff, List.map_map, List.forall₂_map_left_iff, List.forall₂_same]
      intro e he
      simp only [Function.comp_apply, member, hkey, (h e he).decodes]
      rfl
    rw [ofTable, record, table, hmembers]
    exact congrArg Except.ok t.ofList_toList

theorem reads_option {value : Decoder α} {f : α → Json} {a : Option α}
    (h : ∀ b ∈ a, Reads value (f b) b ∧ f b ≠ .null) :
    Reads (option value) (ofOption f a) a := by
  cases a with
  | none => exact ⟨.null, rfl⟩
  | some b =>
    obtain ⟨hread, hnull⟩ := h b rfl
    refine ⟨hread.sound, ?_⟩
    rw [ofOption, option, hread.decodes]
    · rfl
    · exact hnull

theorem reads_named [Named α] {a : α} (h : Named.find? (Named.name a) = some a) :
    Reads Named.decoder (Named.toJson a) a := by
  refine ⟨sound_ofString _, ?_⟩
  rw [Named.decoder, Named.toJson, (reads_text (Named.name a)).decodes]
  show Named.ofName (Named.name a) = _
  rw [Named.ofName, h]

end Json.Decoder

/-! ## Records -/

namespace Json.Record

variable {σ τ α β : Type}

/-- Members that name fields, taken in one after the other. -/
inductive Takes (accept : σ → String → Json → Option (Except Fault σ)) :
    σ → List (String × Json) → σ → Prop where
  | nil (s : σ) : Takes accept s [] s
  | cons {s s' s'' : σ} {key : String} {j : Json} {fields : List (String × Json)}
      (h : accept s key j = some (.ok s')) (hrest : Takes accept s' fields s'') :
      Takes accept s ((key, j) :: fields) s''

/-- Fields that make up a record, which knows no others. -/
structure Fills (r : Record α) (fields : List (String × Json)) (a : α) : Prop where
  sound : ∀ e ∈ fields, Sound e.2
  takes : ∃ s, Takes r.accept r.start fields s ∧ r.finish s = .ok a
  ignores : ∀ key, key ∉ fields.map Prod.fst → ∀ s j, r.accept s key j = none

theorem Takes.append {accept : σ → String → Json → Option (Except Fault σ)} {s s' s'' : σ}
    {fields fields' : List (String × Json)} (h : Takes accept s fields s')
    (h' : Takes accept s' fields' s'') : Takes accept s (fields ++ fields') s'' := by
  induction h with
  | nil => exact h'
  | cons haccept _ ih => exact .cons haccept (ih h')

/-- Taking in the members of an object comes to taking in the fields that they stand for. -/
theorem Takes.acceptAll {r : Record α} {s s' : r.State} {fields : List (String × Json)}
    (h : Takes r.accept s fields s') :
    r.acceptAll s (fields.map fun e ↦ (escape e.1, e.2)) = .ok s' := by
  induction h with
  | nil s => rfl
  | cons haccept _ ih =>
    rw [List.map_cons, Record.acceptAll, Decoder.lexeme_escape]
    simp only [haccept, bind, Except.bind]
    exact ih

/-- **A record is read from the fields that make it up.** -/
theorem Fills.reads {r : Record α} {fields : List (String × Json)} {a : α} (h : r.Fills fields a)
    (name : String) : Decoder.Reads (r.decoder name) (record fields) a := by
  obtain ⟨s, htakes, hfinish⟩ := h.takes
  refine ⟨sound_record h.sound, ?_⟩
  rw [record, Record.decoder, htakes.acceptAll]
  exact hfinish

/-! ### One field -/

section Field

variable {value : Decoder α} {j : Json} {a : α}

theorem fills_field (name : String) (absent : Option α) (h : Decoder.Reads value j a) :
    (field name value absent).Fills [(name, j)] a := by
  refine ⟨by simpa using h.sound, ⟨some a, .cons ?_ (.nil _), rfl⟩, fun key hkey s j ↦ ?_⟩
  · refine (if_pos rfl).trans ?_
    show some (some <$> value j) = _
    rw [h.decodes]
    rfl
  · exact if_neg (by simpa using hkey)

theorem fills_required (name : String) (h : Decoder.Reads value j a) :
    (required name value).Fills [(name, j)] a :=
  fills_field name none h

/-- What is in a field of an object is read in the same way whether or not it may be absent. -/
theorem fills_nullable {a : Option α} (name : String)
    (h : Decoder.Reads (Decoder.option value) j a) : (nullable name value).Fills [(name, j)] a :=
  have hfield := fills_field name (some none) h
  ⟨hfield.sound, hfield.takes, hfield.ignores⟩

theorem Fills.map {r : Record α} {fields : List (String × Json)} {a : α} (h : r.Fills fields a)
    (f : α → β) : (f <$> r).Fills fields (f a) := by
  obtain ⟨s, hs, ha⟩ := h.takes
  refine ⟨h.sound, ⟨s, hs, ?_⟩, h.ignores⟩
  show f <$> r.finish s = _
  rw [ha]
  rfl

end Field

/-! ### One field after the other -/

section Apply

variable {f : Record (α → β)} {r : Record α} {fields fields' : List (String × Json)} {g : α → β}
  {a : α}

theorem accept_apply (f : Record (α → β)) (r : Record α) (s : f.State) (x : r.State) (key : String)
    (j : Json) : (f.apply r).accept (s, x) key j =
      match f.accept s key j with
      | some s₁ => some ((·, x) <$> s₁)
      | none => (r.accept x key j).map fun s₂ ↦ (s, ·) <$> s₂ :=
  rfl

/-- The fields of the first record are taken in by that record. -/
theorem Takes.applyLeft {s s' : f.State} (h : Takes f.accept s fields s') (x : r.State) :
    Takes (f.apply r).accept (s, x) fields (s', x) := by
  induction h with
  | nil s => exact .nil _
  | cons haccept _ ih =>
    refine .cons ?_ ih
    rw [accept_apply, haccept]
    rfl

/-- The fields of the second record are taken in by that one, if the first does not know them. -/
theorem Takes.applyRight {x x' : r.State} (h : Takes r.accept x fields x')
    (hignores : ∀ key ∈ fields.map Prod.fst, ∀ s j, f.accept s key j = none) (s : f.State) :
    Takes (f.apply r).accept (s, x) fields (s, x') := by
  induction h with
  | nil x => exact .nil _
  | cons haccept _ ih =>
    rw [List.map_cons, List.forall_mem_cons] at hignores
    refine .cons ?_ (ih hignores.2)
    rw [accept_apply, hignores.1, haccept]
    rfl

/-- Fields that make up a function, followed by fields that make up its argument. -/
theorem Fills.seq (hf : f.Fills fields g) (hr : r.Fills fields' a)
    (hnames : ∀ key ∈ fields'.map Prod.fst, key ∉ fields.map Prod.fst) :
    (f <*> r).Fills (fields ++ fields') (g a) := by
  obtain ⟨s, hs, hg⟩ := hf.takes
  obtain ⟨x, hx, ha⟩ := hr.takes
  refine ⟨fun e he ↦ ?_, ⟨(s, x), ?_, ?_⟩, fun key hkey s j ↦ ?_⟩
  · exact (List.mem_append.1 he).elim (hf.sound e) (hr.sound e)
  · exact (hs.applyLeft r.start).append
      (hx.applyRight (fun key hkey ↦ hf.ignores key (hnames key hkey)) s)
  · show (do let g ← f.finish s; let a ← r.finish x; return g a) = _
    rw [hg, ha]
    rfl
  · rw [List.map_append, List.mem_append, not_or] at hkey
    refine (accept_apply f r s.1 s.2 key j).trans ?_
    rw [hf.ignores key hkey.1, hr.ignores key hkey.2]
    rfl

variable {value : Decoder α} {j : Json}

/-- One more field that must be there. -/
theorem Fills.required (hf : f.Fills fields g) (name : String) (h : Decoder.Reads value j a)
    (hname : name ∉ fields.map Prod.fst) :
    (f <*> Record.required name value).Fills (fields ++ [(name, j)]) (g a) :=
  hf.seq (fills_required name h) (by simpa using hname)

/-- One more field that may hold nothing. -/
theorem Fills.nullable {f : Record (Option α → β)} {g : Option α → β} {a : Option α}
    (hf : f.Fills fields g) (name : String) (h : Decoder.Reads (Decoder.option value) j a)
    (hname : name ∉ fields.map Prod.fst) :
    (f <*> Record.nullable name value).Fills (fields ++ [(name, j)]) (g a) :=
  hf.seq (fills_nullable name h) (by simpa using hname)

end Apply

end Json.Record

end SongBundle
