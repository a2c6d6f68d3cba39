import Mathlib.Data.List.Nodup
import SongBundle.Proofs.Table
import SongBundle.Track

/-!
# Which indices a track has

Filling the gaps of a list of values gives a track at all indices from the start to the greatest one
listed (`Track.keys_of_densify`).  The tracks of moves start at index zero and end right before the
greatest measure (`keys_of_densifyMoves`), so that an index is the position of its value
(`Track.Gapless`).  An action on a track succeeds index by index or fails at the least index where it
can (`Track.exists_first_of_mapM_eq_error`).
-/

set_option autoImplicit false

namespace SongBundle

namespace Track

variable {α β ε : Type}

/-! ## Spans -/

theorem length_span (first last : UInt32) :
    (span first last).length = last.toNat + 1 - first.toNat := by
  rw [span, List.length_map, List.length_range']

theorem getElem?_span {first last : UInt32} {i : Nat} (h : i < (span first last).length) :
    (span first last)[i]? = some (UInt32.ofNat (first.toNat + i)) := by
  rw [length_span] at h
  rw [span, List.getElem?_map, List.getElem?_range' (by omega)]
  simp

/-! ## Filled tracks -/

/-- A filled track reaches from its start to the greatest index listed. -/
theorem keys_of_densify {start : UInt32} {sparse : List (UInt32 × α)} {t : Track α}
    (h : densify start sparse = .ok t) :
    ∃ last, (Table.ofList sparse).lastKey? = some last ∧ t.entries.keys = span start last := by
  rw [densify] at h
  split at h
  · rename_i first last hfirst hlast
    split at h
    · cases h
    · split at h
      · obtain rfl := Except.ok.inj h
        exact ⟨last, hlast, map_fst_carry _ _ _⟩
      · cases h
  · cases h

/-- A track depends on the table of what is listed only. -/
theorem densify_congr {start : UInt32} {sparse sparse' : List (UInt32 × α)}
    (h : Table.ofList sparse = Table.ofList sparse') :
    densify start sparse = densify start sparse' := by
  rw [densify, densify, h]

theorem densifyFor_congr {stage : Stage} {name : String} {start : UInt32}
    {sparse sparse' : List (UInt32 × α)} (hperm : sparse.Perm sparse')
    (h : (sparse.map Prod.fst).Nodup) :
    densifyFor stage name start sparse = densifyFor stage name start sparse' := by
  rw [densifyFor, densifyFor, densify_congr (Table.ofList_congr hperm h)]

/-! ## Tracks without gaps -/

/-- A track whose indices are the positions of its values, short of the greatest index there is. -/
structure Gapless (t : Track α) : Prop where
  toList_eq : t.toList = t.values.mapIdx fun i a ↦ (UInt32.ofNat i, a)
  length_lt : t.values.length < UInt32.size

theorem gapless_of_keys {t : Track α} {last : UInt32} (h : t.entries.keys = span 0 last)
    (hlast : last.toNat + 1 < UInt32.size) : t.Gapless := by
  have hvalues : t.values = t.toList.map Prod.snd := rfl
  have hkeys : t.toList.map Prod.fst = span 0 last := h
  constructor
  · apply List.ext_getElem
    · rw [List.length_mapIdx, hvalues, List.length_map]
    · intro i hi hi'
      rw [List.getElem_mapIdx]
      refine Prod.ext ?_ ?_
      · have hspan : (span 0 last)[i]? = some (t.toList[i]).1 := by
          rw [← hkeys, List.getElem?_map, List.getElem?_eq_getElem hi]
          rfl
        rw [getElem?_span (by rwa [← hkeys, List.length_map]), Option.some.injEq] at hspan
        simpa using hspan.symm
      · simp [hvalues]
  · rw [hvalues, List.length_map, ← List.length_map (f := Prod.fst), hkeys, length_span]
    exact hlast

/-- The value at an index is the one at that position. -/
theorem Gapless.get?_eq {t : Track α} (h : t.Gapless) (i : UInt32) :
    t.get? i = t.values[i.toNat]? := by
  refine Option.ext fun a ↦ Table.get?_eq_some_iff.trans ?_
  rw [show t.entries.toList = _ from h.toList_eq, List.mem_mapIdx, List.getElem?_eq_some_iff]
  constructor
  · rintro ⟨k, hk, heq⟩
    obtain ⟨rfl, rfl⟩ := Prod.mk.inj heq
    rw [UInt32.toNat_ofNat_of_lt' (Nat.lt_trans hk h.length_lt)]
    exact ⟨hk, rfl⟩
  · rintro ⟨hi, rfl⟩
    exact ⟨i.toNat, hi, by simp⟩

/-- What holds of some entry holds of some position. -/
theorem Gapless.exists_mem_iff {t : Track α} (h : t.Gapless) {P : UInt32 → α → Prop} :
    (∃ e ∈ t.toList, P e.1 e.2) ↔ ∃ i a, t.values[i]? = some a ∧ P (UInt32.ofNat i) a := by
  rw [h.toList_eq]
  simp only [List.mem_mapIdx, List.getElem?_eq_some_iff]
  constructor
  · rintro ⟨_, ⟨i, hi, rfl⟩, hP⟩
    exact ⟨i, _, ⟨hi, rfl⟩, hP⟩
  · rintro ⟨i, _, ⟨hi, rfl⟩, hP⟩
    exact ⟨_, ⟨i, hi, rfl⟩, hP⟩

/-! ## Values and what becomes of them -/

theorem mem_values_iff {t : Track α} {a : α} : a ∈ t.values ↔ ∃ i, t.get? i = some a := by
  simp only [get?, Table.get?_eq_some_iff]
  constructor
  · intro ha
    obtain ⟨entry, hentry, rfl⟩ := List.mem_map.1 ha
    exact ⟨entry.1, hentry⟩
  · rintro ⟨i, hi⟩
    exact List.mem_map_of_mem (f := Prod.snd) hi

theorem mapM_eq_ok_iff {f : α → Except ε β} {t : Track α} {u : Track β} :
    t.mapM f = .ok u ↔ t.entries.mapM f = .ok u.entries := by
  rw [mapM, Outcome.map_eq_ok_iff]
  exact ⟨fun ⟨entries, h, heq⟩ ↦ heq ▸ h, fun h ↦ ⟨u.entries, h, rfl⟩⟩

/-- What becomes of the value at an index. -/
theorem exists_of_mapM_eq_ok {f : α → Except ε β} {t : Track α} {u : Track β} {i : UInt32}
    {a : α} (h : t.mapM f = .ok u) (ha : t.get? i = some a) :
    ∃ b, u.get? i = some b ∧ f a = .ok b :=
  Table.exists_get?_of_forall₂ (Table.mapM_eq_ok_iff.1 (mapM_eq_ok_iff.1 h)) ha

theorem isSome_get?_of_mapM_eq_ok {f : α → Except ε β} {t : Track α} {u : Track β}
    (h : t.mapM f = .ok u) (i : UInt32) : (u.get? i).isSome ↔ (t.get? i).isSome := by
  have hkeys : u.entries.keys = t.entries.keys :=
    Table.forall₂_keys (Table.mapM_eq_ok_iff.1 (mapM_eq_ok_iff.1 h))
  rw [Option.isSome_iff_exists, Option.isSome_iff_exists]
  exact Table.mem_keys_iff.symm.trans (hkeys ▸ Table.mem_keys_iff)

/-- Where the value at an index comes from. -/
theorem get?_of_mapM_eq_ok {f : α → Except ε β} {t : Track α} {u : Track β} {i : UInt32}
    {b : β} (h : t.mapM f = .ok u) (hb : u.get? i = some b) :
    ∃ a, t.get? i = some a ∧ f a = .ok b := by
  obtain ⟨a, ha⟩ := Option.isSome_iff_exists.1 ((isSome_get?_of_mapM_eq_ok h i).1 (by simp [hb]))
  obtain ⟨b', hb', hfa⟩ := exists_of_mapM_eq_ok h ha
  obtain rfl : b' = b := Option.some.inj (hb'.symm.trans hb)
  exact ⟨a, ha, hfa⟩

/-- An action that fails on a track fails at the least index where it fails at all. -/
theorem exists_first_of_mapM_eq_error {f : α → Except ε β} {t : Track α} {error : ε}
    (h : t.mapM f = .error error) :
    ∃ i a, t.get? i = some a ∧ f a = .error error ∧
      ∀ j < i, ∀ a', t.get? j = some a' → ∃ b, f a' = .ok b := by
  have hvalues : t.entries.values.mapM f = .error error := by
    cases hrun : t.entries.values.mapM f with
    | error error' =>
      rw [mapM, Table.mapM, hrun] at h
      exact congrArg _ (Except.error.inj h)
    | ok bs =>
      rw [mapM, Table.mapM, hrun] at h
      cases h
  obtain ⟨_, _, _, hsplit, hfa, hbefore⟩ := Outcome.exists_first_of_mapM_eq_error hvalues
  obtain ⟨before, rest, htoList, rfl, hrest⟩ := List.map_eq_append_iff.1 hsplit
  obtain ⟨⟨i, a⟩, after, rfl, rfl, rfl⟩ := List.map_eq_cons_iff.1 hrest
  refine ⟨i, a, Table.get?_eq_some_iff.2 ?_, hfa, fun j hj a' ha' ↦ ?_⟩
  · show (i, a) ∈ t.entries.entries
    rw [htoList]
    simp
  · -- indices ascend, so whatever has a lesser one stands before
    have hascending := t.entries.ascending
    have hmem : (j, a') ∈ t.entries.entries := Table.get?_eq_some_iff.1 ha'
    rw [htoList] at hascending hmem
    obtain ⟨-, hlater, -⟩ := List.pairwise_append.1 hascending
    rcases List.mem_append.1 hmem with hmem | hmem
    · exact hbefore a' (List.mem_map_of_mem hmem)
    · rcases List.mem_cons.1 hmem with heq | hmem
      · obtain rfl : j = i := congrArg Prod.fst heq
        exact absurd hj (UInt32.lt_irrefl j)
      · have hij : i < j := Std.compare_eq_lt.1 ((List.pairwise_cons.1 hlater).1 _ hmem)
        exact absurd hj (UInt32.lt_asymm hij)

end Track

/-! ## Tracks of moves -/

/-- Moves have a place if none of them lies before the first measure. -/
theorem mapM_place_eq_ok_iff {events : List MoveEvent} {sparse : List (UInt32 × MoveEvent)} :
    events.mapM MoveEvent.place = .ok sparse ↔
      (∀ e ∈ events, e.measure ≠ 0) ∧ events.map (fun e ↦ (e.measure - 1, e)) = sparse := by
  refine Outcome.mapM_eq_ok_iff_map fun e p ↦ ?_
  rw [MoveEvent.place]
  split <;> simp_all

/-- Moves make a track if none of them lies before the first measure and their entries make one. -/
theorem densifyMoves_eq_ok_iff {level : Difficulty} {events : List MoveEvent}
    {t : Track MoveEvent} :
    densifyMoves level events = .ok t ↔ (∀ e ∈ events, e.measure ≠ 0) ∧
      Track.densify 0 (events.map fun e ↦ (e.measure - 1, e)) = .ok t := by
  simp only [densifyMoves, Track.densifyFor, Outcome.bind_eq_ok_iff, mapM_place_eq_ok_iff,
    Outcome.mapError_eq_ok_iff, and_assoc, exists_and_left, exists_eq_left']

/-- The track of a level ends with the greatest measure that has a move. -/
theorem keys_of_densifyMoves {level : Difficulty} {events : List MoveEvent}
    {t : Track MoveEvent} (h : densifyMoves level events = .ok t) :
    ∃ last, t.entries.keys = Track.span 0 last ∧
      (events.map (·.measure.toNat)).max? = some (last.toNat + 1) := by
  obtain ⟨hpos, hdensify⟩ := densifyMoves_eq_ok_iff.1 h
  obtain ⟨last, hlast, hkeys⟩ := Track.keys_of_densify hdensify
  refine ⟨last, hkeys, ?_⟩
  rw [Table.lastKey?_eq_some_iff] at hlast
  simp only [Table.mem_keys_ofList, List.mem_map] at hlast
  obtain ⟨⟨_, ⟨e, he, rfl⟩, rfl⟩, hmax⟩ := hlast
  rw [List.max?_eq_some_iff]
  refine ⟨List.mem_map.2 ⟨e, he, (toNat_pred (hpos e he)).symm⟩, fun n hn ↦ ?_⟩
  obtain ⟨e', he', rfl⟩ := List.mem_map.1 hn
  have hle := hmax _ ⟨_, ⟨e', he', rfl⟩, rfl⟩
  rw [ne_eq, Std.compare_eq_gt, UInt32.not_lt, UInt32.le_iff_toNat_le] at hle
  rw [← toNat_pred (hpos e' he')]
  exact Nat.succ_le_succ hle

/-- Moves at different measures make the same track in any order. -/
theorem densifyMoves_eq_ok_iff_of_perm {level : Difficulty} {events events' : List MoveEvent}
    (hperm : events.Perm events') (h : (events.map MoveEvent.measure).Nodup)
    {t : Track MoveEvent} :
    densifyMoves level events = .ok t ↔ densifyMoves level events' = .ok t := by
  have hkeys : ((events.map fun e ↦ (e.measure - 1, e)).map Prod.fst).Nodup := by
    rw [List.map_map]
    have hnodup := h.map (f := (· - 1)) fun a b hab ↦ (UInt32.sub_left_inj 1).1 hab
    rwa [List.map_map] at hnodup
  simp only [densifyMoves_eq_ok_iff, hperm.mem_iff]
  rw [Track.densify_congr (Table.ofList_congr (hperm.map _) hkeys)]

/-! ## Tracks of cameras and expressions -/

theorem densifyCameras_congr {level : Difficulty} {events events' : List CameraEvent}
    (hperm : events.Perm events') (h : (events.map CameraEvent.beat).Nodup) :
    densifyCameras level events = densifyCameras level events' := by
  refine Track.densifyFor_congr (hperm.map _) ?_
  rwa [List.map_map]

theorem firstBeat?_congr {events events' : List ExpressionEvent} (hperm : events.Perm events') :
    firstBeat? events = firstBeat? events' := by
  refine Option.ext fun beat ↦ ?_
  rw [firstBeat?, firstBeat?, List.min?_eq_some_iff, List.min?_eq_some_iff]
  simp only [(hperm.map ExpressionEvent.beat).mem_iff]

theorem densifyExpressions_congr {events events' : List ExpressionEvent}
    (hperm : events.Perm events') (h : (events.map ExpressionEvent.beat).Nodup) :
    densifyExpressions events = densifyExpressions events' := by
  have hkeys : ((events.map fun e ↦ (e.beat, e.name)).map Prod.fst).Nodup := by
    rwa [List.map_map]
  rw [densifyExpressions, densifyExpressions, firstBeat?_congr hperm]
  split
  · rfl
  · exact Track.densifyFor_congr (hperm.map _) hkeys

end SongBundle
