import SongBundle.Proofs.Track

/-!
# What a track holds at its indices

A list of values makes a track if its least index is the first index of the track.  At each index
the track then holds what was listed last for the greatest index up to there.

* `InForce` is that notion of the last and nearest, for elements listed for any kind of places.
* `Table.IsFloor` is the value under the greatest key up to an index.  `Table.IsFloor.next` goes from
  one index to the next as filling a gap does, and `Track.isFloor_of_mem_carry` goes through all of
  them.
* `Track.densify_cases` gives the three ways in which filling can end, and `densifyFor_fills` reads
  off what a list of values comes to.
-/

set_option autoImplicit false

namespace SongBundle

variable {α β γ : Type}

/-! ## Elements in force -/

/-- Of the elements listed for places, the one in force at a place is the last one that is listed for
the greatest place up to there. -/
def InForce (place : β → Nat) (listed : List β) (i : Nat) (b : β) : Prop :=
  ∃ before after, listed = before ++ b :: after ∧ place b ≤ i ∧
    (∀ c ∈ listed, place c ≤ i → place c ≤ place b) ∧ ∀ c ∈ after, place c ≠ place b

namespace InForce

variable {place : β → Nat} {listed : List β} {i : Nat} {b c : β}

theorem mem (h : InForce place listed i b) : b ∈ listed := by
  obtain ⟨before, after, rfl, -, -, -⟩ := h
  simp

theorem place_le (h : InForce place listed i b) : place b ≤ i := by
  obtain ⟨before, after, -, hle, -, -⟩ := h
  exact hle

theorem le_place (h : InForce place listed i b) (hc : c ∈ listed) (hle : place c ≤ i) :
    place c ≤ place b := by
  obtain ⟨before, after, -, -, hmax, -⟩ := h
  exact hmax c hc hle

/-- At a place for which something is listed, what is in force is listed for just that place. -/
theorem place_eq_iff (h : InForce place listed i b) :
    place b = i ↔ ∃ c ∈ listed, place c = i := by
  refine ⟨fun heq ↦ ⟨b, h.mem, heq⟩, fun ⟨c, hc, heq⟩ ↦ ?_⟩
  exact Nat.le_antisymm h.place_le (heq ▸ h.le_place hc (Nat.le_of_eq heq))

/-- What is listed last for a place is in force there. -/
theorem of_split {before after : List β} (hafter : ∀ c ∈ after, place c ≠ place b) :
    InForce place (before ++ b :: after) (place b) b :=
  ⟨before, after, rfl, Nat.le_refl _, fun _ _ hle ↦ hle, hafter⟩

/-- Two elements in force at one place are the same. -/
theorem unique (hb : InForce place listed i b) (hc : InForce place listed i c) : b = c := by
  have hplace : place b = place c :=
    Nat.le_antisymm (hc.le_place hb.mem hb.place_le) (hb.le_place hc.mem hc.place_le)
  obtain ⟨before, after, rfl, -, -, hafter⟩ := hb
  obtain ⟨before', after', hsplit, -, -, hafter'⟩ := hc
  -- whichever is listed first is not listed last for its place, unless they are the same
  obtain ⟨between, -, hrest⟩ | ⟨between, -, hrest⟩ := List.append_eq_append_iff.1 hsplit
  · cases between with
    | nil => exact (List.cons.inj hrest).1
    | cons d between =>
      obtain ⟨-, rfl⟩ := List.cons.inj hrest
      exact absurd hplace.symm (hafter c (by simp))
  · cases between with
    | nil => exact (List.cons.inj hrest).1.symm
    | cons d between =>
      obtain ⟨-, rfl⟩ := List.cons.inj hrest
      exact absurd hplace (hafter' b (by simp))

/-- What is in force among images of elements is the image of what is in force among these, also if
all places are moved by one. -/
theorem of_map {place : γ → Nat} {place' : β → Nat} {f : β → γ} {c : γ}
    (hplace : ∀ b ∈ listed, place' b = place (f b) + 1) (h : InForce place (listed.map f) i c) :
    ∃ b, f b = c ∧ InForce place' listed (i + 1) b := by
  obtain ⟨before, after, hsplit, hle, hmax, hafter⟩ := h
  obtain ⟨before, rest, rfl, -, hrest⟩ := List.map_eq_append_iff.1 hsplit
  obtain ⟨b, after, rfl, rfl, rfl⟩ := List.map_eq_cons_iff.1 hrest
  have hb := hplace b (by simp)
  refine ⟨b, rfl, before, after, rfl, by omega, fun d hd hd' ↦ ?_, fun d hd ↦ ?_⟩
  · have hplace := hplace d hd
    have := hmax (f d) (List.mem_map_of_mem hd) (by omega)
    omega
  · have hplace := hplace d (by simp [hd])
    have := hafter (f d) (List.mem_map_of_mem hd)
    omega

end InForce

/-! ## Carrying values forward -/

/-- The value of a table under its greatest key up to an index. -/
def Table.IsFloor (t : Table UInt32 α) (i : UInt32) (a : α) : Prop :=
  ∃ k ≤ i, t.get? k = some a ∧ ∀ k' ∈ t.keys, k' ≤ i → k' ≤ k

theorem Table.isFloor_of_get? {t : Table UInt32 α} {i : UInt32} {a : α} (h : t.get? i = some a) :
    t.IsFloor i a :=
  ⟨i, UInt32.le_refl i, h, fun _ _ hle ↦ hle⟩

/-- At the next index the value is the one listed there, or else still the same. -/
theorem Table.IsFloor.next {t : Table UInt32 α} {i j : UInt32} {a : α} (h : t.IsFloor i a)
    (hj : j.toNat = i.toNat + 1) : t.IsFloor j ((t.get? j).getD a) := by
  cases hget : t.get? j with
  | some b => exact Table.isFloor_of_get? hget
  | none =>
    obtain ⟨k, hk, ha, hmax⟩ := h
    rw [UInt32.le_iff_toNat_le] at hk
    refine ⟨k, UInt32.le_iff_toNat_le.2 (by omega), ha, fun k' hk' hle ↦ hmax k' hk' ?_⟩
    have hne : k' ≠ j := by
      rintro rfl
      obtain ⟨b, hb⟩ := Table.mem_keys_iff.1 hk'
      rw [hget] at hb
      cases hb
    rw [UInt32.le_iff_toNat_le] at hle ⊢
    rw [ne_eq, ← UInt32.toNat_inj] at hne
    omega

/-- What a table made of a list has under its greatest key up to an index is in force there. -/
theorem InForce.of_isFloor {sparse : List (UInt32 × α)} {i : UInt32} {a : α}
    (h : (Table.ofList sparse).IsFloor i a) :
    ∃ k, InForce (·.1.toNat) sparse i.toNat (k, a) := by
  obtain ⟨k, hk, ha, hmax⟩ := h
  obtain ⟨before, after, hsplit, hafter⟩ := Table.get?_ofList_eq_some_iff_append.1 ha
  refine ⟨k, before, after, hsplit, UInt32.le_iff_toNat_le.1 hk, fun e he hle ↦ ?_, fun e he ↦ ?_⟩
  · have hkeys : e.1 ∈ (Table.ofList sparse).keys := Table.mem_keys_ofList.2 ⟨e, he, rfl⟩
    exact UInt32.le_iff_toNat_le.1 (hmax e.1 hkeys (UInt32.le_iff_toNat_le.2 hle))
  · exact fun heq ↦ hafter e he (UInt32.toNat_inj.1 heq)

namespace Track

/-- Indices of a span follow one another. -/
theorem isChain_span (first last : UInt32) :
    (span first last).IsChain fun i j ↦ j.toNat = i.toNat + 1 := by
  rw [List.isChain_iff_getElem]
  intro n hn
  rw [length_span] at hn
  have hlast := last.toNat_lt
  have hsize : UInt32.size = 4294967296 := rfl
  simp only [span, List.getElem_map, List.getElem_range']
  rw [UInt32.toNat_ofNat_of_lt' (by omega), UInt32.toNat_ofNat_of_lt' (by omega)]
  omega

theorem mem_span {first last i : UInt32} : i ∈ span first last ↔ first ≤ i ∧ i ≤ last := by
  have hlast := last.toNat_lt
  have hsize : UInt32.size = 4294967296 := rfl
  rw [span, List.mem_map, UInt32.le_iff_toNat_le, UInt32.le_iff_toNat_le]
  constructor
  · rintro ⟨n, hn, rfl⟩
    rw [List.mem_range'_1] at hn
    rw [UInt32.toNat_ofNat_of_lt' (by omega)]
    omega
  · intro h
    exact ⟨i.toNat, List.mem_range'_1.2 (by omega), UInt32.ofNat_toNat⟩

/-- Carrying values over indices that follow one another gives each its value. -/
theorem isFloor_of_mem_carry {listed : Table UInt32 α} {current : α} {i : UInt32}
    {is : List UInt32} (hchain : (i :: is).IsChain fun i j ↦ j.toNat = i.toNat + 1)
    (h : listed.IsFloor i ((listed.get? i).getD current)) :
    ∀ e ∈ carry listed current (i :: is), listed.IsFloor e.1 e.2 := by
  induction is generalizing current i with
  | nil => simpa [carry] using h
  | cons j is ih =>
    rw [List.isChain_cons_cons] at hchain
    rw [carry]
    exact List.forall_mem_cons.2 ⟨h, ih hchain.2 (h.next hchain.1)⟩

/-- Carrying values from the first index on, where one is listed, gives each index its value. -/
theorem isFloor_of_mem_carry_span {listed : Table UInt32 α} {a : α} {first last : UInt32}
    (ha : listed.get? first = some a) :
    ∀ e ∈ carry listed a (span first last), listed.IsFloor e.1 e.2 := by
  cases hspan : span first last with
  | nil => simp [carry]
  | cons i is =>
    have hi : i = first := by
      have hhead : (span first last)[0]? = some (UInt32.ofNat (first.toNat + 0)) :=
        getElem?_span (by simp [hspan])
      simpa [hspan] using hhead
    refine isFloor_of_mem_carry (hspan ▸ isChain_span first last) ?_
    rw [hi, ha]
    exact Table.isFloor_of_get? ha

/-! ## Filled tracks -/

/-- An index is the least one of a list. -/
structure IsFirst (sparse : List (UInt32 × α)) (first : UInt32) : Prop where
  listed : ∃ e ∈ sparse, e.1 = first
  le : ∀ e ∈ sparse, first ≤ e.1

/-- An index is the greatest one of a list. -/
structure IsLast (sparse : List (UInt32 × α)) (last : UInt32) : Prop where
  listed : ∃ e ∈ sparse, e.1 = last
  le : ∀ e ∈ sparse, e.1 ≤ last

variable {start first last : UInt32} {sparse : List (UInt32 × α)}

theorem firstKey?_ofList_eq_some_iff :
    (Table.ofList sparse).firstKey? = some first ↔ IsFirst sparse first := by
  rw [Table.firstKey?_eq_some_iff, Table.forall_mem_keys_ofList, Table.mem_keys_ofList]
  simp only [ne_eq, Std.compare_eq_gt, UInt32.not_lt, eq_comm (a := first)]
  exact ⟨fun h ↦ ⟨h.1, h.2⟩, fun h ↦ ⟨h.listed, h.le⟩⟩

theorem lastKey?_ofList_eq_some_iff :
    (Table.ofList sparse).lastKey? = some last ↔ IsLast sparse last := by
  rw [Table.lastKey?_eq_some_iff, Table.forall_mem_keys_ofList, Table.mem_keys_ofList]
  simp only [ne_eq, Std.compare_eq_gt, UInt32.not_lt, eq_comm (a := last)]
  exact ⟨fun h ↦ ⟨h.1, h.2⟩, fun h ↦ ⟨h.listed, h.le⟩⟩

theorem exists_isFirst {e : UInt32 × α} (he : e ∈ sparse) : ∃ first, IsFirst sparse first := by
  obtain ⟨first, hfirst⟩ := Table.exists_firstKey? (Table.mem_keys_ofList.2 ⟨e, he, rfl⟩)
  exact ⟨first, firstKey?_ofList_eq_some_iff.1 hfirst⟩

theorem exists_isLast {e : UInt32 × α} (he : e ∈ sparse) : ∃ last, IsLast sparse last := by
  obtain ⟨last, hlast⟩ := Table.exists_lastKey? (Table.mem_keys_ofList.2 ⟨e, he, rfl⟩)
  exact ⟨last, lastKey?_ofList_eq_some_iff.1 hlast⟩

/-- A track reaches from its first index to the greatest one listed, and at each index it holds what
is in force there. -/
structure Filled (start : UInt32) (sparse : List (UInt32 × α)) (t : Track α) : Prop where
  reach : ∃ last, IsLast sparse last ∧ ∀ i, (t.get? i).isSome ↔ start ≤ i ∧ i ≤ last
  in_force : ∀ i a, t.get? i = some a → ∃ k, InForce (·.1.toNat) sparse i.toNat (k, a)

/-- A list whose least index is the first one of a track fills the track. -/
theorem exists_densify (hstart : IsFirst sparse start) :
    ∃ t, densify start sparse = .ok t ∧ t.Filled start sparse := by
  obtain ⟨e, he, rfl⟩ := hstart.listed
  obtain ⟨last, hlast⟩ := exists_isLast he
  obtain ⟨a, ha⟩ : ∃ a, (Table.ofList sparse).get? e.1 = some a :=
    Table.mem_keys_iff.1 (Table.mem_keys_ofList.2 ⟨e, he, rfl⟩)
  have hdensify : densify e.1 sparse =
      .ok ⟨⟨carry (Table.ofList sparse) a (span e.1 last), pairwise_carry _ a e.1 last⟩⟩ := by
    simp [densify, firstKey?_ofList_eq_some_iff.2 hstart, lastKey?_ofList_eq_some_iff.2 hlast, ha]
  refine ⟨_, hdensify, ⟨last, hlast, fun i ↦ ?_⟩, fun i b hb ↦ ?_⟩
  · have hkeys := map_fst_carry (Table.ofList sparse) a (span e.1 last)
    rw [← mem_span, Option.isSome_iff_exists]
    exact Table.mem_keys_iff.symm.trans (Iff.of_eq (congrArg (i ∈ ·) hkeys))
  · exact InForce.of_isFloor (isFloor_of_mem_carry_span ha _ (Table.get?_eq_some_iff.1 hb))

theorem densify_of_early (hfirst : IsFirst sparse first) (h : first < start) :
    densify start sparse = .error (.early first start) := by
  obtain ⟨e, he, -⟩ := hfirst.listed
  obtain ⟨last, hlast⟩ := exists_isLast he
  simp [densify, firstKey?_ofList_eq_some_iff.2 hfirst, lastKey?_ofList_eq_some_iff.2 hlast, h]

theorem densify_of_missing (hstart : ¬∃ e ∈ sparse, e.1 = start)
    (hle : ∀ e ∈ sparse, start ≤ e.1) : densify start sparse = .error (.missingFirst start) := by
  have hnone : (Table.ofList sparse).get? start = none := by
    rw [Option.eq_none_iff_forall_ne_some]
    intro a ha
    obtain ⟨e, he, heq⟩ := Table.mem_keys_ofList.1 (Table.mem_keys_iff.2 ⟨a, ha⟩)
    exact hstart ⟨e, he, heq.symm⟩
  rw [densify]
  split
  · rename_i first last hfirst _
    obtain ⟨e, he, rfl⟩ := (firstKey?_ofList_eq_some_iff.1 hfirst).listed
    rw [if_neg (UInt32.not_lt.2 (hle e he)), hnone]
  · rfl

/-- The three ways in which filling can end. -/
theorem densify_cases (start : UInt32) (sparse : List (UInt32 × α)) :
    (IsFirst sparse start ∧ ∃ t, densify start sparse = .ok t ∧ t.Filled start sparse) ∨
    (∃ first, IsFirst sparse first ∧ first < start ∧
      densify start sparse = .error (.early first start)) ∨
    (¬(∃ e ∈ sparse, e.1 = start) ∧ (∀ e ∈ sparse, start ≤ e.1) ∧
      densify start sparse = .error (.missingFirst start)) := by
  by_cases hle : ∀ e ∈ sparse, start ≤ e.1
  · by_cases hstart : ∃ e ∈ sparse, e.1 = start
    · exact .inl ⟨⟨hstart, hle⟩, exists_densify ⟨hstart, hle⟩⟩
    · exact .inr (.inr ⟨hstart, hle, densify_of_missing hstart hle⟩)
  · obtain ⟨e, he, hlt⟩ : ∃ e ∈ sparse, e.1 < start := by simpa using hle
    obtain ⟨first, hfirst⟩ := exists_isFirst he
    have hearly := UInt32.lt_of_le_of_lt (hfirst.le e he) hlt
    exact .inr (.inl ⟨first, hfirst, hearly, densify_of_early hfirst hearly⟩)

theorem filled_of_densify {t : Track α} (h : densify start sparse = .ok t) :
    t.Filled start sparse := by
  obtain ⟨-, t', ht', hfilled⟩ | ⟨first, -, -, herror⟩ | ⟨-, -, herror⟩ :=
    densify_cases start sparse
  · obtain rfl : t' = t := Except.ok.inj (ht'.symm.trans h)
    exact hfilled
  · exact nomatch herror.symm.trans h
  · exact nomatch herror.symm.trans h

end Track

/-- Expressions always make a track, since it starts with the first of them. -/
theorem exists_densifyExpressions (events : List ExpressionEvent) :
    ∃ t, densifyExpressions events = .ok t := by
  rw [densifyExpressions]
  cases hfirst : firstBeat? events with
  | none => exact ⟨_, rfl⟩
  | some start =>
    rw [firstBeat?, List.min?_eq_some_iff] at hfirst
    obtain ⟨e, he, rfl⟩ := List.mem_map.1 hfirst.1
    have hstart : Track.IsFirst (events.map fun e ↦ (e.beat, e.name)) e.beat :=
      ⟨⟨_, List.mem_map_of_mem he, rfl⟩,
        List.forall_mem_map.2 fun e' he' ↦ hfirst.2 e'.beat (List.mem_map_of_mem he')⟩
    obtain ⟨t, ht, -⟩ := Track.exists_densify hstart
    exact ⟨t, Outcome.mapError_eq_ok_iff.2 ht⟩

/-- **A list of values makes a track exactly if its least index is the first one.**  Then the track
holds at each index what is in force there.  Otherwise the error points at the least index if that
comes too early, and else at the first one; expressions never fail. -/
theorem densifyFor_fills (stage : Stage) (name : String) (start : UInt32)
    (sparse : List (UInt32 × α)) :
    ((∃ t, Track.densifyFor stage name start sparse = .ok t) ↔
      (∃ e ∈ sparse, e.1 = start) ∧ ∀ e ∈ sparse, start ≤ e.1) ∧
    (∀ t, Track.densifyFor stage name start sparse = .ok t → t.Filled start sparse) ∧
    (∀ error, Track.densifyFor stage name start sparse = .error error →
      ∃ index, error.stage? = some stage ∧ error.location? = some (.index index) ∧
        ((∃ e ∈ sparse, e.1 < start) → Track.IsFirst sparse index) ∧
        ((∀ e ∈ sparse, start ≤ e.1) → index = start)) ∧
    ∀ events, ∃ t, densifyExpressions events = .ok t := by
  have hreported {fault : Track.Fault} (h : Track.densify start sparse = .error fault) :
      Track.densifyFor stage name start sparse = .error (fault.report stage name) := by
    rw [Track.densifyFor, h]
    rfl
  obtain ⟨hfirst, t, ht, hfilled⟩ | ⟨first, hfirst, hlt, hearly⟩ | ⟨hstart, hle, hmissing⟩ :=
    Track.densify_cases start sparse
  · have hok : Track.densifyFor stage name start sparse = .ok t :=
      Outcome.mapError_eq_ok_iff.2 ht
    rw [hok]
    refine ⟨iff_of_true ⟨t, rfl⟩ ⟨hfirst.listed, hfirst.le⟩, fun t' ht' ↦ ?_, fun error h ↦ ?_,
      exists_densifyExpressions⟩
    · exact Except.ok.inj ht' ▸ hfilled
    · cases h
  · have hnot : ¬∀ e ∈ sparse, start ≤ e.1 := by
      obtain ⟨e, he, rfl⟩ := hfirst.listed
      exact fun hle ↦ UInt32.not_lt.2 (hle e he) hlt
    rw [hreported hearly]
    refine ⟨iff_of_false ?_ (fun h ↦ hnot h.2), fun t h ↦ ?_, fun error h ↦ ?_,
      exists_densifyExpressions⟩
    · rintro ⟨t, h⟩
      cases h
    · cases h
    · obtain rfl := Except.error.inj h
      exact ⟨first, rfl, rfl, fun _ ↦ hfirst, fun hle ↦ absurd hle hnot⟩
  · rw [hreported hmissing]
    refine ⟨iff_of_false ?_ (fun h ↦ hstart h.1), fun t h ↦ ?_, fun error h ↦ ?_,
      exists_densifyExpressions⟩
    · rintro ⟨t, h⟩
      cases h
    · cases h
    · obtain rfl := Except.error.inj h
      refine ⟨start, rfl, rfl, ?_, fun _ ↦ rfl⟩
      rintro ⟨e, he, hlt⟩
      exact absurd hlt (UInt32.not_lt.2 (hle e he))

/-- Positions that are listed twice and out of order, for a track from beat two and for one from beat
three. -/
theorem densifyFor_fills_twice :
    (∃ t, Track.densifyFor .camera "easy camera" 2
        [(5, "far"), (2, "near"), (5, "wide"), (2, "low")] = .ok t ∧
      t.Filled 2 [(5, "far"), (2, "near"), (5, "wide"), (2, "low")]) ∧
    ∃ error, Track.densifyFor .camera "easy camera" 3
        [(5, "far"), (2, "near"), (5, "wide"), (2, "low")] = .error error ∧
      error.location? = some (.index 2) := by
  obtain ⟨hok, hfilled, -, -⟩ := densifyFor_fills .camera "easy camera" 2
    [(5, "far"), (2, "near"), (5, "wide"), (2, "low")]
  obtain ⟨hok', -, herror, -⟩ := densifyFor_fills .camera "easy camera" 3
    [(5, "far"), (2, "near"), (5, "wide"), (2, "low")]
  obtain ⟨t, ht⟩ := hok.2 ⟨by decide, by decide⟩
  refine ⟨⟨t, ht, hfilled t ht⟩, ?_⟩
  cases hrun : Track.densifyFor .camera "easy camera" 3
      [(5, "far"), (2, "near"), (5, "wide"), (2, "low")] with
  | ok t => exact absurd (hok'.1 ⟨t, hrun⟩) (by decide)
  | error error =>
    obtain ⟨index, -, hlocation, hfirst, -⟩ := herror error hrun
    have hindex := hfirst (by decide)
    obtain ⟨e, he, heq⟩ := hindex.listed
    have hleast : ∀ e ∈ [((5 : UInt32), "far"), (2, "near"), (5, "wide"), (2, "low")], 2 ≤ e.1 := by
      decide
    obtain rfl : index = 2 :=
      UInt32.le_antisymm (hindex.le (2, "near") (by decide)) (heq ▸ hleast e he)
    exact ⟨error, rfl, hlocation⟩

end SongBundle
