import SongBundle.Proofs.Track.Filling

/-!
# Filling a track again

Filling the gaps of a list of values is a closure: a track that is listed itself fills to itself, and
a value that the track holds anyway may be listed as well.  What is listed after the end of a track
continues it, however the track came about.

* `Table.IsFloor.move`, `Table.IsFloor.unique` and `Table.IsFloor.insert` are about the value under
  the greatest key up to an index.
* `Track.densify_eq_ok_iff` says that a list has one track, the one that it fills, and
  `Track.isFloor_iff_get?_min` that the track tells everything about the list that matters.
* `densifyFor_closed` puts these together.
-/

set_option autoImplicit false

namespace SongBundle

variable {α : Type}

/-! ## Values under the greatest key -/

namespace Table

variable {t t' : Table UInt32 α} {i j : UInt32} {a b : α}

/-- Two indices that have the same keys up to them have the same value. -/
theorem IsFloor.move (h : t.IsFloor i a) (hij : ∀ k ∈ t.keys, k ≤ i ↔ k ≤ j) : t.IsFloor j a := by
  obtain ⟨k, hk, ha, hmax⟩ := h
  refine ⟨k, (hij k (mem_keys_iff.2 ⟨a, ha⟩)).1 hk, ha, fun k' hk' hle ↦ ?_⟩
  exact hmax k' hk' ((hij k' hk').2 hle)

theorem IsFloor.unique (ha : t.IsFloor i a) (hb : t.IsFloor i b) : a = b := by
  obtain ⟨k, hk, ha, hmax⟩ := ha
  obtain ⟨k', hk', hb, hmax'⟩ := hb
  have hle := hmax' k (mem_keys_iff.2 ⟨a, ha⟩) hk
  have hle' := hmax k' (mem_keys_iff.2 ⟨b, hb⟩) hk'
  obtain rfl : k = k' := UInt32.le_antisymm hle hle'
  exact Option.some.inj (ha.symm.trans hb)

/-- Entering the value that an index has anyway changes no other index. -/
theorem IsFloor.insert (h : t.IsFloor j b) (ha : t.IsFloor i a) : (t.insert i a).IsFloor j b := by
  have hget (k : UInt32) (hk : k ≠ i) : (t.insert i a).get? k = t.get? k := by
    rw [get?_insert_eq, if_neg hk]
  obtain ⟨k, hk, hb, hmax⟩ := h
  by_cases hbetween : k ≤ i ∧ i ≤ j
  · -- the new key is now the greatest one up to `j`, with the value that was there
    obtain ⟨k', hk', ha', hmax'⟩ := ha
    have hle := hmax' k (mem_keys_iff.2 ⟨b, hb⟩) hbetween.1
    have hle' := hmax k' (mem_keys_iff.2 ⟨a, ha'⟩) (UInt32.le_trans hk' hbetween.2)
    obtain rfl : k = k' := UInt32.le_antisymm hle hle'
    obtain rfl : a = b := Option.some.inj (ha'.symm.trans hb)
    refine ⟨i, hbetween.2, by rw [get?_insert_eq, if_pos rfl], fun l hl hlj ↦ ?_⟩
    rcases mem_keys_insert.1 hl with hl | rfl
    · exact UInt32.le_trans (hmax l hl hlj) hbetween.1
    · exact UInt32.le_refl l
  · have hne : k ≠ i := fun heq ↦ hbetween ⟨heq ▸ UInt32.le_refl k, heq ▸ hk⟩
    refine ⟨k, hk, (hget k hne).trans hb, fun l hl hlj ↦ ?_⟩
    rcases mem_keys_insert.1 hl with hl | rfl
    · exact hmax l hl hlj
    · grind

/-- Behind the last key of a table entries make a table of their own. -/
theorem isFloor_insertAll_iff {last : UInt32} {more : List (UInt32 × α)}
    (hlast : ∀ k ∈ t.keys, k ≤ last) (hmore : ∀ e ∈ more, last < e.1) :
    (t.insertAll more).IsFloor j b ↔
      (ofList more).IsFloor j b ∨ t.IsFloor j b ∧ ∀ e ∈ more, j < e.1 := by
  constructor
  · rintro ⟨k, hk, hb, hmax⟩
    rw [get?_insertAll_eq_or, Option.or_eq_some_iff] at hb
    rcases hb with hb | ⟨-, hb⟩
    · exact .inl ⟨k, hk, hb, forall_mem_keys_ofList.2 fun e he ↦
        hmax e.1 (mem_keys_insertAll.2 (.inr ⟨e, he, rfl⟩))⟩
    · refine .inr ⟨⟨k, hk, hb, fun l hl ↦ hmax l (mem_keys_insertAll.2 (.inl hl))⟩, fun e he ↦ ?_⟩
      -- an entry up to `j` would have a greater key than the one under which `b` stands
      refine UInt32.not_le.1 fun hle ↦ UInt32.not_le.2 (hmore e he) ?_
      have hek := hmax e.1 (mem_keys_insertAll.2 (.inr ⟨e, he, rfl⟩)) hle
      exact UInt32.le_trans hek (hlast k (mem_keys_iff.2 ⟨b, hb⟩))
  · rintro (⟨k, hk, hb, hmax⟩ | ⟨⟨k, hk, hb, hmax⟩, hnone⟩)
    · refine ⟨k, hk, by rw [get?_insertAll_eq_or, hb, Option.some_or], fun l hl hlj ↦ ?_⟩
      rcases mem_keys_insertAll.1 hl with hl | ⟨e, he, rfl⟩
      · obtain ⟨e, he, rfl⟩ := mem_keys_ofList.1 (mem_keys_iff.2 ⟨b, hb⟩)
        exact UInt32.le_trans (hlast l hl) (UInt32.le_of_lt (hmore e he))
      · exact hmax e.1 (mem_keys_ofList.2 ⟨e, he, rfl⟩) hlj
    · have hfree : (ofList more).get? k = none := by
        refine Option.eq_none_iff_forall_ne_some.2 fun c hc ↦ ?_
        obtain ⟨e, he, rfl⟩ := mem_keys_ofList.1 (mem_keys_iff.2 ⟨c, hc⟩)
        exact UInt32.not_le.2 (hnone e he) hk
      refine ⟨k, hk, by rw [get?_insertAll_eq_or, hfree, Option.none_or, hb], fun l hl hlj ↦ ?_⟩
      rcases mem_keys_insertAll.1 hl with hl | ⟨e, he, rfl⟩
      · exact hmax l hl hlj
      · exact absurd hlj (UInt32.not_le.2 (hnone e he))

/-- A pair with the value that its key has anyway may stand anywhere among the pairs of a table. -/
theorem ofList_append_cons {before after : List (UInt32 × α)}
    (ha : (ofList (before ++ after)).IsFloor i a) :
    ofList (before ++ (i, a) :: after) = (ofList (before ++ after)).insert i a := by
  have hcons : (ofList before).insertAll ((i, a) :: after) =
      ((ofList before).insert i a).insertAll after := rfl
  rw [ofList_append] at ha
  rw [ofList_append, ofList_append, hcons]
  refine ext_get? fun k ↦ ?_
  rw [get?_insertAll_eq_or, get?_insert_eq, get?_insert_eq, get?_insertAll_eq_or]
  split
  · rename_i hk
    cases hafter : (ofList after).get? k with
    | none => rfl
    | some b =>
      -- the key is listed again, necessarily with the same value
      have hget : ((ofList before).insertAll after).get? i = some b := by
        rw [get?_insertAll_eq_or, ← hk, hafter, Option.some_or]
      rw [Option.some_or, (isFloor_of_get? hget).unique ha]
  · rfl

end Table

/-- What is in force in a list is what a table made of the list has under its greatest key. -/
theorem isFloor_ofList_iff {sparse : List (UInt32 × α)} {i : UInt32} {a : α} :
    (Table.ofList sparse).IsFloor i a ↔ ∃ k, InForce (·.1.toNat) sparse i.toNat (k, a) := by
  refine ⟨InForce.of_isFloor, ?_⟩
  rintro ⟨k, before, after, rfl, hle, hmax, hafter⟩
  refine ⟨k, UInt32.le_iff_toNat_le.2 hle, ?_, ?_⟩
  · refine Table.get?_ofList_eq_some_iff_append.2 ⟨before, after, rfl, fun e he heq ↦ ?_⟩
    exact hafter e he (congrArg UInt32.toNat heq)
  · refine Table.forall_mem_keys_ofList.2 fun e he hei ↦ ?_
    exact UInt32.le_iff_toNat_le.2 (hmax e he (UInt32.le_iff_toNat_le.1 hei))

namespace Track

variable {start last : UInt32} {sparse sparse' : List (UInt32 × α)} {t t' : Track α}

/-! ## The track of a list -/

theorem IsLast.unique {last' : UInt32} (h : IsLast sparse last) (h' : IsLast sparse last') :
    last = last' := by
  rw [← lastKey?_ofList_eq_some_iff] at h h'
  exact Option.some.inj (h.symm.trans h')

theorem Filled.isFloor (h : t.Filled start sparse) {i : UInt32} {a : α}
    (ha : t.get? i = some a) : (Table.ofList sparse).IsFloor i a :=
  isFloor_ofList_iff.2 (h.in_force i a ha)

/-- A list fills one track only. -/
theorem Filled.unique (h : t.Filled start sparse) (h' : t'.Filled start sparse) : t = t' := by
  obtain ⟨last, hlast, hreach⟩ := h.reach
  obtain ⟨last', hlast', hreach'⟩ := h'.reach
  obtain rfl := hlast.unique hlast'
  refine congrArg Track.mk (Table.ext_get? fun i ↦ ?_)
  change t.get? i = t'.get? i
  have hsome : (t.get? i).isSome ↔ (t'.get? i).isSome := (hreach i).trans (hreach' i).symm
  cases ha : t.get? i with
  | none =>
    rw [ha] at hsome
    exact (Option.not_isSome_iff_eq_none.1 fun h ↦ nomatch hsome.2 h).symm
  | some a =>
    obtain ⟨b, hb⟩ := Option.isSome_iff_exists.1 (hsome.1 (by simp [ha]))
    rw [hb, (h.isFloor ha).unique (h'.isFloor hb)]

/-- A list makes a track exactly if its least index is the first one, and then the track that it
fills. -/
theorem densify_eq_ok_iff :
    densify start sparse = .ok t ↔ IsFirst sparse start ∧ t.Filled start sparse := by
  constructor
  · intro h
    obtain ⟨hfirst, -⟩ | ⟨first, -, -, herror⟩ | ⟨-, -, herror⟩ := densify_cases start sparse
    · exact ⟨hfirst, filled_of_densify h⟩
    · exact nomatch herror.symm.trans h
    · exact nomatch herror.symm.trans h
  · rintro ⟨hfirst, hfilled⟩
    obtain ⟨t', ht', hfilled'⟩ := exists_densify hfirst
    rw [ht', hfilled.unique hfilled']

section

variable (h : densify start sparse = .ok t)

include h

/-- A list makes the track of another one if it begins and ends where that one does and has the same
values in between. -/
theorem densify_of_isFloor (hfirst : IsFirst sparse' start)
    (hlast : ∀ last, IsLast sparse last → IsLast sparse' last)
    (hfloor : ∀ i a, t.get? i = some a → (Table.ofList sparse').IsFloor i a) :
    densify start sparse' = .ok t := by
  obtain ⟨last, hlast', hreach⟩ := (filled_of_densify h).reach
  exact densify_eq_ok_iff.2 ⟨hfirst, ⟨last, hlast last hlast', hreach⟩,
    fun i a ha ↦ isFloor_ofList_iff.1 (hfloor i a ha)⟩

theorem isSome_get?_iff (hlast : IsLast sparse last) (i : UInt32) :
    (t.get? i).isSome ↔ start ≤ i ∧ i ≤ last := by
  obtain ⟨last', hlast', hreach⟩ := (filled_of_densify h).reach
  exact hlast.unique hlast' ▸ hreach i

theorem le_of_isLast (hlast : IsLast sparse last) : start ≤ last := by
  obtain ⟨e, he, rfl⟩ := hlast.listed
  exact (densify_eq_ok_iff.1 h).1.le e he

/-- A track ends at the greatest index listed. -/
theorem lastIndex?_eq_some_iff : t.lastIndex? = some last ↔ IsLast sparse last := by
  have hend {last : UInt32} (hlast : IsLast sparse last) : t.lastIndex? = some last := by
    have hkeys (i : UInt32) : i ∈ t.entries.keys ↔ start ≤ i ∧ i ≤ last := by
      rw [← isSome_get?_iff h hlast, Option.isSome_iff_exists]
      exact Table.mem_keys_iff
    refine Table.lastKey?_eq_some_iff.2
      ⟨(hkeys last).2 ⟨le_of_isLast h hlast, UInt32.le_refl last⟩, fun i hi ↦ ?_⟩
    rw [ne_eq, Std.compare_eq_gt, UInt32.not_lt]
    exact ((hkeys i).1 hi).2
  refine ⟨fun hlast ↦ ?_, hend⟩
  obtain ⟨last', hlast', -⟩ := (filled_of_densify h).reach
  exact Option.some.inj (hlast.symm.trans (hend hlast')) ▸ hlast'

/-- The values under the greatest keys are those of the track, and behind its end its last one. -/
theorem isFloor_iff_get?_min (hlast : IsLast sparse last) {j : UInt32} {b : α} :
    (Table.ofList sparse).IsFloor j b ↔ t.get? (min j last) = some b := by
  obtain ⟨hfirst, hfilled⟩ := densify_eq_ok_iff.1 h
  have hmin := UInt32.min_def j last
  have hkeys : ∀ k ∈ (Table.ofList sparse).keys, start ≤ k ∧ k ≤ last :=
    Table.forall_mem_keys_ofList.2 fun e he ↦ ⟨hfirst.le e he, hlast.le e he⟩
  have hmove : ∀ k ∈ (Table.ofList sparse).keys, k ≤ min j last ↔ k ≤ j := fun k hk ↦ by
    have := hkeys k hk
    grind
  constructor
  · intro hb
    obtain ⟨k, hk, hkb, -⟩ := id hb
    have hk' := hkeys k (Table.mem_keys_iff.2 ⟨b, hkb⟩)
    obtain ⟨a, ha⟩ := Option.isSome_iff_exists.1
      ((isSome_get?_iff h hlast (min j last)).2 (by grind))
    rw [ha, ((hfilled.isFloor ha).move hmove).unique hb]
  · exact fun hb ↦ (hfilled.isFloor hb).move hmove

/-! ## Listing what a track holds -/

/-- A track that is listed makes itself. -/
theorem densify_toList : densify start t.toList = .ok t := by
  obtain ⟨last, hlast, hreach⟩ := (filled_of_densify h).reach
  have hstart := le_of_isLast h hlast
  have hlisted {i : UInt32} (hi : start ≤ i ∧ i ≤ last) : ∃ e ∈ t.toList, e.1 = i := by
    obtain ⟨a, ha⟩ := Option.isSome_iff_exists.1 ((hreach i).2 hi)
    exact ⟨(i, a), Table.get?_eq_some_iff.1 ha, rfl⟩
  have hinside : ∀ e ∈ t.toList, start ≤ e.1 ∧ e.1 ≤ last := fun e he ↦
    (hreach e.1).1 (Option.isSome_iff_exists.2 ⟨e.2, Table.get?_eq_some_iff.2 he⟩)
  refine densify_of_isFloor h ⟨hlisted ⟨UInt32.le_refl start, hstart⟩, fun e he ↦ (hinside e he).1⟩
    (fun last' hlast' ↦ ?_) fun i a ha ↦ ?_
  · obtain rfl := hlast.unique hlast'
    exact ⟨hlisted ⟨hstart, UInt32.le_refl last⟩, fun e he ↦ (hinside e he).2⟩
  · rw [toList, Table.ofList_toList]
    exact Table.isFloor_of_get? ha

end

/-- What a track holds may be listed as well, wherever it stands. -/
theorem densify_append_cons {before after : List (UInt32 × α)} {i : UInt32} {a : α}
    (h : densify start (before ++ after) = .ok t) (ha : t.get? i = some a) :
    densify start (before ++ (i, a) :: after) = .ok t := by
  obtain ⟨hfirst, hfilled⟩ := densify_eq_ok_iff.1 h
  obtain ⟨last, hlast, hreach⟩ := hfilled.reach
  have hi := (hreach i).1 (Option.isSome_iff_exists.2 ⟨a, ha⟩)
  have hmem {e : UInt32 × α} :
      e ∈ before ++ (i, a) :: after ↔ e = (i, a) ∨ e ∈ before ++ after := by
    simp [or_left_comm]
  refine densify_of_isFloor h ⟨?_, fun e he ↦ ?_⟩ (fun last' hlast' ↦ ⟨?_, fun e he ↦ ?_⟩)
    fun j b hb ↦ ?_
  · obtain ⟨e, he, heq⟩ := hfirst.listed
    exact ⟨e, hmem.2 (.inr he), heq⟩
  · rcases hmem.1 he with rfl | he
    · exact hi.1
    · exact hfirst.le e he
  · obtain ⟨e, he, heq⟩ := hlast'.listed
    exact ⟨e, hmem.2 (.inr he), heq⟩
  · rcases hmem.1 he with rfl | he
    · exact hlast.unique hlast' ▸ hi.2
    · exact hlast'.le e he
  · rw [Table.ofList_append_cons (hfilled.isFloor ha)]
    exact (hfilled.isFloor hb).insert (hfilled.isFloor ha)

/-! ## Listing more behind the end of a track -/

theorem IsFirst.append {more : List (UInt32 × α)} (h : IsFirst sparse start)
    (hmore : ∀ e ∈ more, start ≤ e.1) : IsFirst (sparse ++ more) start := by
  obtain ⟨e, he, heq⟩ := h.listed
  exact ⟨⟨e, List.mem_append_left more he, heq⟩, List.forall_mem_append.2 ⟨h.le, hmore⟩⟩

/-- Lists that end at the same index still do if the same is added to both. -/
theorem IsLast.append_congr {more : List (UInt32 × α)} {last' : UInt32} (h : IsLast sparse last)
    (h' : IsLast sparse' last) (hlast : IsLast (sparse ++ more) last') :
    IsLast (sparse' ++ more) last' := by
  obtain ⟨hle, hmore⟩ := List.forall_mem_append.1 hlast.le
  have hll : last ≤ last' := by
    obtain ⟨e, he, rfl⟩ := h.listed
    exact hle e he
  refine ⟨?_, List.forall_mem_append.2 ⟨fun e he ↦ UInt32.le_trans (h'.le e he) hll, hmore⟩⟩
  obtain ⟨e, he, rfl⟩ := hlast.listed
  rcases List.mem_append.1 he with he | he
  · obtain ⟨e', he', heq⟩ := h'.listed
    exact ⟨e', List.mem_append_left more he', heq.trans (UInt32.le_antisymm hll (h.le e he))⟩
  · exact ⟨e, List.mem_append_right sparse' he, rfl⟩

/-- Lists that make the same track still do if the same is listed behind its end. -/
theorem exists_densify_append {more : List (UInt32 × α)} (h : densify start sparse = .ok t)
    (h' : densify start sparse' = .ok t) (hlast : t.lastIndex? = some last)
    (hmore : ∀ e ∈ more, last < e.1) :
    ∃ u, densify start (sparse ++ more) = .ok u ∧ densify start (sparse' ++ more) = .ok u := by
  have hsparse := (lastIndex?_eq_some_iff h).1 hlast
  have hsparse' := (lastIndex?_eq_some_iff h').1 hlast
  have hstart : ∀ e ∈ more, start ≤ e.1 := fun e he ↦
    UInt32.le_trans (le_of_isLast h hsparse) (UInt32.le_of_lt (hmore e he))
  obtain ⟨u, hu, hfilled⟩ := exists_densify ((densify_eq_ok_iff.1 h).1.append hstart)
  have hkeys := Table.forall_mem_keys_ofList (P := (· ≤ last)).2 hsparse.le
  have hkeys' := Table.forall_mem_keys_ofList (P := (· ≤ last)).2 hsparse'.le
  refine ⟨u, hu, densify_of_isFloor hu ((densify_eq_ok_iff.1 h').1.append hstart)
    (fun _ ↦ hsparse.append_congr hsparse') fun i a ha ↦ ?_⟩
  -- both lists have the values of `t` up to any index, so the same ones with what was added
  have hfloor := hfilled.isFloor ha
  rw [Table.ofList_append, Table.isFloor_insertAll_iff hkeys hmore,
    isFloor_iff_get?_min h hsparse] at hfloor
  rw [Table.ofList_append, Table.isFloor_insertAll_iff hkeys' hmore,
    isFloor_iff_get?_min h' hsparse']
  exact hfloor

/-- A track begins where its list does. -/
theorem start_unique {start' : UInt32} (h : densify start sparse = .ok t)
    (h' : densify start' sparse' = .ok t) : start = start' := by
  obtain ⟨last, hlast, hreach⟩ := (filled_of_densify h).reach
  obtain ⟨last', hlast', hreach'⟩ := (filled_of_densify h').reach
  have hsome (i : UInt32) := (hreach i).symm.trans (hreach' i)
  have hle := (hsome start).1 ⟨UInt32.le_refl start, le_of_isLast h hlast⟩
  have hle' := (hsome start').2 ⟨UInt32.le_refl start', le_of_isLast h' hlast'⟩
  exact UInt32.le_antisymm hle'.1 hle.1

end Track

/-- **Filling is a closure.**  A track that is listed again makes itself.  Every index between the
first and the last one has a value, which may be listed as well, at any position.  Lists that make the
same track make equal tracks after the same values are added to both behind its end. -/
theorem densifyFor_closed {stage : Stage} {name : String} {start : UInt32}
    {sparse : List (UInt32 × α)} {t : Track α}
    (h : Track.densifyFor stage name start sparse = .ok t) :
    Track.densifyFor stage name start t.toList = .ok t ∧
    ∃ last, t.lastIndex? = some last ∧
      (∀ i, start ≤ i → i ≤ last → ∃ a, t.get? i = some a ∧
        ∀ before after, sparse = before ++ after →
          Track.densifyFor stage name start (before ++ (i, a) :: after) = .ok t) ∧
      ∀ stage' name' start' sparse', Track.densifyFor stage' name' start' sparse' = .ok t →
        ∀ more : List (UInt32 × α), (∀ e ∈ more, last < e.1) →
          ∃ u, Track.densifyFor stage name start (sparse ++ more) = .ok u ∧
            Track.densifyFor stage' name' start' (sparse' ++ more) = .ok u := by
  simp only [Track.densifyFor, Outcome.mapError_eq_ok_iff] at h ⊢
  obtain ⟨last, hlast, hreach⟩ := (Track.filled_of_densify h).reach
  have hend := (Track.lastIndex?_eq_some_iff h).2 hlast
  refine ⟨Track.densify_toList h, last, hend, fun i hstart hi ↦ ?_,
    fun stage' name' start' sparse' h' more hmore ↦ ?_⟩
  · obtain ⟨a, ha⟩ := Option.isSome_iff_exists.1 ((hreach i).2 ⟨hstart, hi⟩)
    exact ⟨a, ha, fun before after hsplit ↦ Track.densify_append_cons (hsplit ▸ h) ha⟩
  · obtain rfl := Track.start_unique h h'
    exact Track.exists_densify_append h h' hend hmore

/-- Positions that are listed twice and out of order, the value of beat four listed as well, and two
lists of one track that are continued from beat seven. -/
theorem densifyFor_closed_continued :
    ∃ t, Track.densifyFor .camera "easy camera" 2
        [(5, "far"), (2, "near"), (5, "wide"), (2, "low")] = .ok t ∧
      Track.densifyFor .camera "easy camera" 2 t.toList = .ok t ∧
      Track.densifyFor .camera "easy camera" 2
        [(5, "far"), (2, "near"), (4, "low"), (5, "wide"), (2, "low")] = .ok t ∧
      ∃ u, Track.densifyFor .camera "easy camera" 2
          [(5, "far"), (2, "near"), (5, "wide"), (2, "low"), (7, "top")] = .ok u ∧
        Track.densifyFor .expression "expression" 2 [(5, "wide"), (2, "low"), (7, "top")] = .ok u := by
  let t : Track String := ⟨.ofList [(2, "low"), (3, "low"), (4, "low"), (5, "wide")]⟩
  have ht : Track.densifyFor .camera "easy camera" 2
      [(5, "far"), (2, "near"), (5, "wide"), (2, "low")] = .ok t := rfl
  have ht' : Track.densifyFor .expression "expression" 2 [(5, "wide"), (2, "low")] = .ok t := rfl
  obtain ⟨hagain, last, hlast, hinsert, happend⟩ := densifyFor_closed ht
  obtain rfl : 5 = last := Option.some.inj hlast
  obtain ⟨a, ha, hlisted⟩ := hinsert 4 (by decide) (by decide)
  obtain rfl : "low" = a := Option.some.inj ha
  exact ⟨t, ht, hagain, hlisted [(5, "far"), (2, "near")] [(5, "wide"), (2, "low")] rfl,
    happend .expression "expression" 2 _ ht' [(7, "top")] (by decide)⟩

end SongBundle
