import Mathlib.Data.List.Sort
import SongBundle.Proofs.Build.Packaging
import SongBundle.Proofs.Files.Path

/-!
# The names of the entries

No two parts of a song are stored under one name, so what is written for a part is what a bundle
holds under its name (`CompiledSong.read?_of_mem_entries`).

Most names are known beforehand.  The entry of a sequence is named after its level, its place in the
practice and the sequence itself; the last of these can be any text, and slashes in it, of either
kind, divide the name further.

* `EntryName.pieces` divides a name at its slashes, and `EntryName.innerPieces` leaves out the first
  and the last piece, which the name of an entry goes on with.
* `takes_sequenceEntry_iff`: nothing but an inner piece can keep a sequence from having an entry.
* `sequenceEntry_inj`: level and place can be read off the name of an entry, so sequences never
  share one.
* `plainEntries` are the other entries, and `plainNames` all names that these can have.
-/

set_option autoImplicit false

namespace SongBundle

/-! ## Dividing lists -/

section

variable {α : Type} {p : α → Bool}

/-- Elements that do not divide are put before the first piece. -/
theorem splitOnP_append_left {front as first : List α} {rest : List (List α)}
    (hfront : ∀ a ∈ front, ¬p a = true) (h : as.splitOnP p = first :: rest) :
    (front ++ as).splitOnP p = (front ++ first) :: rest := by
  induction front with
  | nil => exact h
  | cons a front ih =>
    obtain ⟨ha, hfront⟩ := List.forall_mem_cons.1 hfront
    rw [List.cons_append, List.splitOnP_cons_eq_if_modifyHead, if_neg ha, ih hfront]
    rfl

/-- Elements that do not divide are put after the last piece. -/
theorem splitOnP_append_right {back as last : List α} {init : List (List α)}
    (hback : ∀ a ∈ back, ¬p a = true) (h : as.splitOnP p = init ++ [last]) :
    (as ++ back).splitOnP p = init ++ [last ++ back] := by
  induction as generalizing init last with
  | nil =>
    obtain ⟨rfl, hlast⟩ := List.append_inj' (show [] ++ [[]] = init ++ [last] from h) rfl
    obtain rfl := List.singleton_inj.1 hlast
    exact List.splitOnP_eq_singleton fun a ha ↦ Bool.eq_false_iff.2 (hback a ha)
  | cons a as ih =>
    rw [List.splitOnP_cons_eq_if_modifyHead] at h
    rw [List.cons_append, List.splitOnP_cons_eq_if_modifyHead]
    by_cases ha : p a = true
    · rw [if_pos ha] at h ⊢
      rcases List.cons_eq_append_iff.1 h with ⟨-, hlast⟩ | ⟨init', rfl, hrest⟩
      · exact absurd (List.cons.inj hlast).2.symm (List.splitOnP_ne_nil p as)
      · rw [ih hrest]
        rfl
    · rw [if_neg ha] at h ⊢
      cases hsplit : as.splitOnP p with
      | nil => exact absurd hsplit (List.splitOnP_ne_nil p as)
      | cons first rest =>
        rw [hsplit] at h
        rcases List.cons_eq_append_iff.1 h with ⟨rfl, hlast⟩ | ⟨init', rfl, rfl⟩
        · obtain ⟨rfl, rfl⟩ := List.cons.inj hlast
          rw [ih (show as.splitOnP p = [] ++ [first] from hsplit)]
          rfl
        · rw [ih (show as.splitOnP p = (first :: init') ++ [last] from hsplit)]
          rfl

end

/-! ## Pieces of a name -/

namespace EntryName

/-- Whether a character divides names. -/
def isSlash (c : Char) : Bool := c == '/' || c == '\\'

/-- The texts between the slashes and backslashes of a name. -/
def pieces (name : String) : List String := (name.toList.splitOnP isSlash).map String.ofList

/-- The pieces of a name that stand between two others. -/
def innerPieces (name : String) : List String := (pieces name).tail.dropLast

/-- A name is stored under its pieces. -/
theorem parts_withSlashes (name : String) : Path.parts (withSlashes name) = pieces name := by
  rw [Path.parts, withSlashes, String.toList_ofList, pieces]
  refine congrArg (List.map String.ofList) ?_
  induction name.toList with
  | nil => rfl
  | cons c cs ih =>
    rw [List.map_cons, Path.splitSlash, ih, List.splitOnP_cons_eq_if_modifyHead]
    have hne := List.splitOnP_ne_nil isSlash cs
    by_cases hslash : isSlash c = true
    · have hc : (if c = '\\' then '/' else c) = '/' := by
        simp only [isSlash, Bool.or_eq_true, beq_iff_eq] at hslash
        rcases hslash with rfl | rfl <;> rfl
      rw [if_pos hc, if_pos hslash]
    · have hc : c ≠ '/' ∧ c ≠ '\\' := by simpa [isSlash] using hslash
      rw [if_neg hc.2, if_neg hc.1, if_neg hslash]
      cases hsplit : cs.splitOnP isSlash with
      | nil => exact absurd hsplit hne
      | cons first rest => rfl

theorem pieces_append_slash (front back : String) :
    pieces (front ++ "/" ++ back) = pieces front ++ pieces back := by
  have hlist : (front ++ "/" ++ back).toList = front.toList ++ '/' :: back.toList := by simp
  rw [pieces, hlist, List.splitOnP_append_cons _ _ rfl, List.map_append]
  rfl

theorem isNormal_withSlashes_iff {name : String} :
    isNormal (withSlashes name) = true ↔ ∀ piece ∈ pieces name, isProper piece = true := by
  rw [isNormal, parts_withSlashes, List.all_eq_true]

theorem normalize?_eq_some_iff {name normal : String} :
    normalize? name = some normal ↔
      (∀ piece ∈ pieces name, isProper piece = true) ∧ withSlashes name = normal := by
  rw [← isNormal_withSlashes_iff]
  simp only [normalize?]
  split <;> simp_all

/-- A name whose container is there can be written under if it is a name at all. -/
theorem takes_iff_isNormal {s : AssetStore} {name : String}
    (h : s.hasContainer (container (withSlashes name)) = true) :
    s.takes name = true ↔ isNormal (withSlashes name) = true := by
  rw [AssetStore.takes_iff, isNormal_withSlashes_iff]
  simp only [normalize?_eq_some_iff]
  constructor
  · rintro ⟨normal, ⟨hproper, -⟩, -⟩
    exact hproper
  · intro hproper
    exact ⟨_, ⟨hproper, rfl⟩, h⟩

/-- A piece that has a character which is no dot names something. -/
theorem isProper_of_mem {piece : String} {c : Char} (hc : c ≠ '.') (h : c ∈ piece.toList) :
    isProper piece = true := by
  have hne {other : String} (hother : c ∉ other.toList) : piece ≠ other :=
    fun heq ↦ hother (heq ▸ h)
  have hdots : c ∉ "".toList ∧ c ∉ ".".toList ∧ c ∉ "..".toList := by simp [hc]
  simp [isProper, hne hdots.1, hne hdots.2.1, hne hdots.2.2]

/-- What stands around a name goes to its outer pieces. -/
theorem exists_pieces_surround {front back : String}
    (hfront : ∀ c ∈ front.toList, ¬isSlash c = true)
    (hback : ∀ c ∈ back.toList, ¬isSlash c = true) (name : String) :
    ∃ first outer,
      pieces (front ++ name ++ back) = (front ++ first) :: (innerPieces name ++ outer) ∧
      ∀ piece ∈ outer, ∃ last, piece = last ++ back := by
  have hlist : (front ++ name ++ back).toList = front.toList ++ name.toList ++ back.toList := by
    simp
  rw [innerPieces, pieces, pieces, hlist]
  cases hsplit : name.toList.splitOnP isSlash with
  | nil => exact absurd hsplit (List.splitOnP_ne_nil _ _)
  | cons first rest =>
    have hleft := splitOnP_append_left hfront hsplit
    rcases List.eq_nil_or_concat rest with rfl | ⟨inner, last, rfl⟩
    · have hboth := splitOnP_append_right hback (show _ = [] ++ [_] from hleft)
      refine ⟨String.ofList (first ++ back.toList), [], ?_, nofun⟩
      rw [hboth]
      simp [String.ofList_append]
    · rw [List.concat_eq_append] at hleft ⊢
      have hboth := splitOnP_append_right hback
        (show _ = ((front.toList ++ first) :: inner) ++ [last] from hleft)
      refine ⟨String.ofList first, [String.ofList last ++ back], ?_, ?_⟩
      · rw [hboth]
        simp [String.ofList_append]
      · intro piece hpiece
        exact ⟨String.ofList last, List.mem_singleton.1 hpiece⟩

end EntryName

/-! ## Sequences -/

namespace CompiledSong

open EntryName

variable {level level' : Difficulty} {i i' : Nat} {q q' : Pose.Sequence}

theorem isDigit_of_mem_paddedIndex {c : Char} (h : c ∈ (paddedIndex i).toList) :
    c.isDigit = true := by
  rw [paddedIndex, String.toList_ofList] at h
  rcases List.mem_append.1 h with h | h
  · rw [List.eq_of_mem_replicate h]
    rfl
  · exact Nat.isDigit_of_mem_toDigits (by decide) (by decide) h

/-- Padding does not change the number that the digits say. -/
theorem paddedIndex_inj (h : paddedIndex i = paddedIndex i') : i = i' := by
  have hvalue (n : Nat) : Nat.ofDigitChars 10 (paddedIndex n).toList 0 = n := by
    rw [paddedIndex, String.toList_ofList, Nat.ofDigitChars_append,
      Nat.ofDigitChars_replicate_zero, Nat.mul_zero, Nat.ofDigitChars_ten_toDigits]
  rw [← hvalue i, h, hvalue i']

/-- The pieces of the name of a sequence's entry: its container, its level, and what its place and
its own name make up. -/
theorem exists_pieces_sequenceEntry (level : Difficulty) (i : Nat) (q : Pose.Sequence) :
    ∃ first outer,
      pieces (sequenceEntry level i q) = "sequences" :: level.text ::
        (paddedIndex i ++ "_" ++ first) :: (innerPieces q.name ++ outer) ∧
      ∀ piece ∈ outer, isProper piece = true := by
  have hname : sequenceEntry level i q = "sequences" ++ "/" ++
      (level.text ++ "/" ++ (paddedIndex i ++ "_" ++ q.name ++ ".json")) := by
    have hfront : ("sequences/" : String) = "sequences" ++ "/" := by decide
    simp only [sequenceEntry, String.append_assoc, hfront]
    rfl
  have hlevel : pieces level.text = [level.text] := by cases level <;> decide
  have hcontainer : pieces "sequences" = ["sequences"] := by decide
  have hplace : ∀ c ∈ (paddedIndex i ++ "_").toList, ¬isSlash c = true := by
    intro c hc hslash
    rw [String.toList_append, List.mem_append] at hc
    rcases hc with hc | hc
    · have hdigit := isDigit_of_mem_paddedIndex hc
      simp only [isSlash, Bool.or_eq_true, beq_iff_eq] at hslash
      rcases hslash with rfl | rfl <;> cases hdigit
    · obtain rfl := List.mem_singleton.1 hc
      cases hslash
  have hending : ∀ c ∈ ".json".toList, ¬isSlash c = true := by simp [isSlash]
  obtain ⟨first, outer, hpieces, houter⟩ := exists_pieces_surround hplace hending q.name
  rw [hname, pieces_append_slash, pieces_append_slash, hlevel, hcontainer, hpieces]
  refine ⟨first, outer, rfl, fun piece hpiece ↦ ?_⟩
  obtain ⟨last, rfl⟩ := houter piece hpiece
  have hj : 'j' ∈ ".json".toList := by decide
  exact isProper_of_mem (c := 'j') (by decide) (String.toList_append ▸ List.mem_append_right _ hj)

/-- **A sequence has an entry unless its name has an inner piece that leads nowhere.** -/
theorem isNormal_sequenceEntry_iff :
    isNormal (withSlashes (sequenceEntry level i q)) = true ↔
      ∀ piece ∈ innerPieces q.name, isProper piece = true := by
  obtain ⟨first, outer, hpieces, houter⟩ := exists_pieces_sequenceEntry level i q
  have hlevel : isProper level.text = true := by cases level <;> decide
  have hplace : isProper (paddedIndex i ++ "_" ++ first) = true :=
    isProper_of_mem (c := '_') (by decide) (by simp)
  rw [isNormal_withSlashes_iff, hpieces, List.forall_mem_cons, List.forall_mem_cons,
    List.forall_mem_cons, List.forall_mem_append, and_iff_right (by decide), and_iff_right hlevel,
    and_iff_right hplace, and_iff_left houter]

/-- **Level and place can be read off the entry of a sequence**, whatever the sequences are called
and however many there are. -/
theorem sequenceEntry_inj
    (h : withSlashes (sequenceEntry level i q) = withSlashes (sequenceEntry level' i' q')) :
    level = level' ∧ i = i' := by
  obtain ⟨first, outer, hpieces, -⟩ := exists_pieces_sequenceEntry level i q
  obtain ⟨first', outer', hpieces', -⟩ := exists_pieces_sequenceEntry level' i' q'
  have hsame := congrArg Path.parts h
  rw [parts_withSlashes, parts_withSlashes, hpieces, hpieces', List.cons.injEq, List.cons.injEq,
    List.cons.injEq] at hsame
  obtain ⟨-, hlevel, hplace, -⟩ := hsame
  -- the place ends at the first underscore, there being none among its digits
  have hdigits (n : Nat) (rest : String) :
      (paddedIndex n ++ "_" ++ rest).toList.takeWhile Char.isDigit = (paddedIndex n).toList := by
    rw [String.toList_append, String.toList_append, List.append_assoc,
      List.takeWhile_append_of_pos fun c hc ↦ isDigit_of_mem_paddedIndex hc]
    exact List.append_nil _
  have hindex := hdigits i first
  rw [hplace, hdigits, String.toList_inj] at hindex
  refine ⟨?_, (paddedIndex_inj hindex).symm⟩
  cases level <;> cases level' <;> first | rfl | exact absurd hlevel (by decide)

/-- The sequences have a container of their own, whatever they are called. -/
theorem container_sequenceEntry (level : Difficulty) (i : Nat) (q : Pose.Sequence) :
    container (withSlashes (sequenceEntry level i q)) = "sequences" := by
  obtain ⟨first, outer, hpieces, -⟩ := exists_pieces_sequenceEntry level i q
  rw [container, parts_withSlashes, hpieces]
  rfl

/-- A store that has their container has a place for sequences, unless a piece in the middle of
their name leads nowhere. -/
theorem takes_sequenceEntry_iff {template : AssetStore}
    (hcontainer : template.hasContainer "sequences" = true) :
    template.takes (sequenceEntry level i q) = true ↔
      ∀ piece ∈ innerPieces q.name, isProper piece = true := by
  rw [← isNormal_sequenceEntry_iff, takes_iff_isNormal]
  rwa [container_sequenceEntry]

end CompiledSong

/-! ## All entries -/

/-- The levels of a table are listed from the easiest to the hardest. -/
theorem Difficulty.keys_sublist {α : Type} (t : Table Difficulty α) :
    t.keys.Sublist Named.all := by
  have hasymm : Std.Antisymm fun a b : Difficulty ↦ compare a b = .lt :=
    ⟨fun a b h h' ↦ absurd (Std.TransCmp.lt_trans h h') (by simp)⟩
  have hall : t.keys ⊆ Named.all := by
    intro level _
    cases level <;> decide
  exact List.sublist_of_subperm_of_pairwise (List.subperm_of_subset t.nodup_keys hall)
    t.pairwise_keys (by decide)

namespace CompiledSong

open EntryName

variable {s : CompiledSong} {e : String × Json}

/-- The entries of a song apart from its sequences. -/
def plainEntries (s : CompiledSong) : List (String × Json) :=
  [("moves/graph.json", s.graph.toJson),
    ("battle/steps.json", .ofList Battle.Step.toJson s.battle),
    ("partyjump/intervals.json", .ofList PartyJump.Interval.toJson s.partyJumps)]
    ++ s.practice.toList.map (fun e ↦ (levelEntry "practice" e.1, e.2.toJson))
    ++ s.anims.toList.map (fun e ↦ (levelEntry "anims" e.1, e.2.toJson))
    ++ [("song/manifest.json", s.manifest.toJson)]

/-- The names that these entries can have. -/
def plainNames : List String :=
  ["moves/graph.json", "battle/steps.json", "partyjump/intervals.json"]
    ++ Named.all.map (levelEntry "practice") ++ Named.all.map (levelEntry "anims")
    ++ ["song/manifest.json"]

theorem nodup_plainNames : plainNames.Nodup := by decide

theorem normalize?_plainNames : ∀ name ∈ plainNames, normalize? name = some name := by decide

theorem container_plainNames : ∀ name ∈ plainNames, container name ≠ "sequences" := by decide

theorem plainEntries_sublist : (s.plainEntries.map Prod.fst).Sublist plainNames := by
  have hlevels {α : Type} (t : Table Difficulty α) (container : String)
      {f : Difficulty × α → Json} :
      ((t.toList.map fun e ↦ (levelEntry container e.1, f e)).map Prod.fst).Sublist
        (Named.all.map (levelEntry container)) := by
    rw [List.map_map]
    have hkeys : t.toList.map (Prod.fst ∘ fun e ↦ (levelEntry container e.1, f e)) =
        t.keys.map (levelEntry container) := by
      rw [Table.keys, List.map_map]
      rfl
    rw [hkeys]
    exact (Difficulty.keys_sublist t).map _
  simp only [plainEntries, List.map_append]
  exact (((List.Sublist.refl _).append (hlevels _ _)).append (hlevels _ _)).append (.refl _)

theorem mem_entries_iff : e ∈ s.entries ↔
    e ∈ s.plainEntries ∨ ∃ p ∈ s.sequences.toList, e ∈ sequenceEntries p.1 p.2 := by
  simp only [entries, plainEntries, List.mem_append, List.mem_flatMap]
  -- the sequences stand between those of the practice and the keyframes
  exact (or_congr_left or_right_comm).trans or_right_comm

theorem withSlashes_plainNames (name : String) (h : name ∈ plainNames) : withSlashes name = name :=
  (normalize?_eq_some_iff.1 (normalize?_plainNames name h)).2

theorem mem_plainNames_of_mem_plainEntries (he : e ∈ s.plainEntries) : e.1 ∈ plainNames :=
  plainEntries_sublist.subset (List.mem_map_of_mem he)

/-- The names under which the entries of a song are stored. -/
def storedNames (s : CompiledSong) : List String := s.entries.map fun e ↦ withSlashes e.1

theorem mem_sequenceEntries_iff {level : Difficulty} {sequences : List Pose.Sequence} :
    e ∈ sequenceEntries level sequences ↔
      ∃ i q, sequences[i]? = some q ∧ e = (sequenceEntry level i q, q.toJson) := by
  rw [sequenceEntries, List.mem_map]
  constructor
  · rintro ⟨⟨q, i⟩, hmem, rfl⟩
    exact ⟨i, q, List.mem_zipIdx_iff_getElem?.1 hmem, rfl⟩
  · rintro ⟨i, q, hi, rfl⟩
    exact ⟨(q, i), List.mem_zipIdx_iff_getElem?.2 hi, rfl⟩

theorem sequenceEntry_mem_entries {part : Difficulty × List Pose.Sequence}
    (hpart : part ∈ s.sequences.toList) {i : Nat} {q : Pose.Sequence}
    (hq : part.2[i]? = some q) :
    (sequenceEntry part.1 i q, q.toJson) ∈ s.entries := by
  have hmem : (sequenceEntry part.1 i q, q.toJson) ∈ sequenceEntries part.1 part.2 :=
    mem_sequenceEntries_iff.2 ⟨i, q, hq, rfl⟩
  exact mem_entries_iff.2 (.inr ⟨part, hpart, hmem⟩)

/-- The sequences of a level are stored under names of their own. -/
theorem nodup_sequenceEntries (level : Difficulty) (sequences : List Pose.Sequence) :
    ((sequenceEntries level sequences).map fun e ↦ withSlashes e.1).Nodup := by
  rw [sequenceEntries, List.map_map]
  refine List.pairwise_map.2 ?_
  have hplaces : (sequences.zipIdx.map Prod.snd).Nodup := by
    rw [List.zipIdx_map_snd]
    exact List.nodup_range'
  refine (List.pairwise_map.1 hplaces).imp fun hne hsame ↦ ?_
  exact hne (sequenceEntry_inj hsame).2

/-- The sequences of all levels are stored under names of their own. -/
theorem nodup_sequences (sequences : Table Difficulty (List Pose.Sequence)) :
    ((sequences.toList.flatMap fun e ↦ sequenceEntries e.1 e.2).map
      fun e ↦ withSlashes e.1).Nodup := by
  rw [List.map_flatMap, List.nodup_flatMap]
  refine ⟨fun e _ ↦ nodup_sequenceEntries e.1 e.2, ?_⟩
  refine (List.pairwise_map.1 sequences.nodup_keys).imp fun {e e'} hne name hname hname' ↦ ?_
  obtain ⟨entry, hentry, rfl⟩ := List.mem_map.1 hname
  obtain ⟨entry', hentry', hsame⟩ := List.mem_map.1 hname'
  obtain ⟨q, -, rfl⟩ := List.mem_map.1 hentry
  obtain ⟨q', -, rfl⟩ := List.mem_map.1 hentry'
  exact hne (sequenceEntry_inj hsame).1.symm

/-- **No two entries of a song are stored under one name.** -/
theorem nodup_storedNames (s : CompiledSong) : s.storedNames.Nodup := by
  have hperm : s.entries.Perm
      (s.plainEntries ++ s.sequences.toList.flatMap fun e ↦ sequenceEntries e.1 e.2) := by
    simp only [entries, plainEntries, List.append_assoc]
    -- the sequences stand between those of the practice and the keyframes
    refine .append_left _ (.append_left _ (List.perm_append_comm.trans ?_))
    rw [List.append_assoc]
  have hplain : s.plainEntries.map (fun e ↦ withSlashes e.1) = s.plainEntries.map Prod.fst :=
    List.map_congr_left fun e he ↦
      withSlashes_plainNames _ (mem_plainNames_of_mem_plainEntries he)
  rw [storedNames, (hperm.map _).nodup_iff, List.map_append, List.nodup_append', hplain]
  refine ⟨nodup_plainNames.sublist plainEntries_sublist, nodup_sequences s.sequences, ?_⟩
  intro name hname hname'
  obtain ⟨entry, hentry, rfl⟩ := List.mem_map.1 hname'
  obtain ⟨e, -, hentry⟩ := List.mem_flatMap.1 hentry
  obtain ⟨q, -, rfl⟩ := List.mem_map.1 hentry
  exact container_plainNames _ (plainEntries_sublist.subset hname)
    (container_sequenceEntry e.1 q.2 q.1)

section

variable {template : AssetStore} {o : BuildOutput} (h : s.package template = .ok o)

include h

theorem normalize?_of_mem_entries (he : e ∈ s.entries) :
    normalize? e.1 = some (withSlashes e.1) := by
  obtain ⟨normal, hnormal, -⟩ := AssetStore.takes_iff.1 ((exists_package_iff.1 ⟨o, h⟩).2 e he)
  rw [hnormal, (normalize?_eq_some_iff.1 hnormal).2]

/-- What is written for a part of a song is what the bundle holds. -/
theorem read?_of_mem_entries {name : String} {j : Json} (he : (name, j) ∈ s.entries) :
    o.bundle.read? (withSlashes name) = some j.pretty.toUTF8 := by
  refine get?_of_writeAll (writeAll_of_package h) he (normalize?_of_mem_entries h he)
    fun e' he' hsame ↦ ?_
  exact congrArg Prod.snd
    (List.inj_on_of_nodup_map s.nodup_storedNames he' he (normalize?_eq_some_iff.1 hsame).2)

/-- An entry that is no sequence is in the bundle as it was written. -/
theorem read?_of_mem_plainEntries {name : String} {j : Json} (he : (name, j) ∈ s.plainEntries) :
    o.bundle.read? name = some j.pretty.toUTF8 := by
  have hread := read?_of_mem_entries h (mem_entries_iff.2 (.inl he))
  rwa [withSlashes_plainNames _ (mem_plainNames_of_mem_plainEntries he)] at hread

end

end CompiledSong

end SongBundle
