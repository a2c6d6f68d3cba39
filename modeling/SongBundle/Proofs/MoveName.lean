import SongBundle.MoveName

/-!
# When short names and full names determine each other

Dropping the song from the name of a move and putting it back undo each other for names of the usual
form.  Not for all: a song or a stem may itself look like a marker or have an extension.  What is
here settles both ways for all names and all songs.

* `suffix_append_cons_iff` says how an ending can lie across the place where the song begins.  Since
  an underscore stands there, the extension never does, and the small marker only as a whole.
* `short_of_small`, `short_of_not_small` and their like say what each operation does to a name with
  the small marker and to one without it.
* `qualified_short_eq_iff` says which names are recovered from their short names.
* `short_qualified_eq_iff` says which short names are recovered from full ones.
-/

set_option autoImplicit false

namespace SongBundle.MoveName

/-! ## Endings -/

/-- A name has an ending if it is some stem followed by it. -/
def HasEnding (name ending : String) : Prop := ending.toList <:+ name.toList

instance (name ending : String) : Decidable (HasEnding name ending) :=
  inferInstanceAs (Decidable (ending.toList <:+ name.toList))

theorem hasEnding_iff {name ending : String} :
    HasEnding name ending ↔ ∃ stem, name = stem ++ ending := by
  constructor
  · rintro ⟨front, h⟩
    refine ⟨String.ofList front, String.toList_inj.1 ?_⟩
    simp [← h]
  · rintro ⟨stem, rfl⟩
    simp [HasEnding]

theorem hasEnding_append (stem ending : String) : HasEnding (stem ++ ending) ending :=
  hasEnding_iff.2 ⟨stem, rfl⟩

theorem withoutEnding?_of_not {name ending : String} (h : ¬HasEnding name ending) :
    withoutEnding? name ending = none := if_neg h

/-- What lies at the end of two lists put together lies in the second one, or begins in the first
one. -/
theorem suffix_append_cons_iff {α : Type} {l front rest : List α} {a : α} :
    l <:+ front ++ a :: rest ↔ l <:+ rest ∨ ∃ mid, mid <:+ front ∧ l = mid ++ a :: rest := by
  constructor
  · rintro ⟨k, hk⟩
    rcases List.append_eq_append_iff.1 hk with ⟨mid, rfl, rfl⟩ | ⟨mid, rfl, hrest⟩
    · exact .inr ⟨mid, List.suffix_append k mid, rfl⟩
    · cases mid with
      | nil => exact .inr ⟨[], List.nil_suffix, hrest.symm⟩
      | cons b mid =>
        obtain ⟨rfl, rfl⟩ := List.cons.inj hrest
        exact .inl (List.suffix_append mid l)
  · rintro (h | ⟨mid, ⟨k, rfl⟩, rfl⟩)
    · exact List.suffix_append_of_suffix (h.trans (List.suffix_cons a rest))
    · rw [List.append_assoc]
      exact List.suffix_append k _

theorem toList_songEnding (song : String) : (songEnding song).toList = '_' :: song.toList := by
  simp [songEnding]

theorem append_songEnding_ne (stem song : String) : stem ++ songEnding song ≠ stem := by
  rw [Ne, String.append_eq_left_iff, songEnding, String.append_eq_empty_iff]
  exact fun h ↦ absurd h.1 (by decide)

/-- An ending without an underscore is an ending of the song. -/
theorem hasEnding_append_songEnding (name song : String) {ending : String}
    (h : '_' ∉ ending.toList) :
    HasEnding (name ++ songEnding song) ending ↔ HasEnding song ending := by
  rw [HasEnding, String.toList_append, toList_songEnding, suffix_append_cons_iff]
  refine or_iff_left ?_
  rintro ⟨mid, -, hending⟩
  simp [hending] at h

/-- The small marker is an ending of the song, or it is all that the song adds. -/
theorem hasSmall_append_songEnding (name song : String) :
    HasEnding (name ++ songEnding song) smallMarker ↔
      song = "sm" ∨ HasEnding song smallMarker := by
  rw [HasEnding, String.toList_append, toList_songEnding, suffix_append_cons_iff, or_comm]
  refine or_congr_left ⟨?_, ?_⟩
  · rintro ⟨mid, -, hmid⟩
    have hsmall : smallMarker.toList = '_' :: "sm".toList := by decide
    cases mid with
    | nil =>
      rw [hsmall, List.nil_append, List.cons.injEq, String.toList_inj] at hmid
      exact hmid.2.symm
    | cons c mid =>
      -- a second underscore would stand behind the one that the marker begins with
      rw [hsmall, List.cons_append, List.cons.injEq] at hmid
      have hmem : '_' ∈ "sm".toList := by simp [hmid.2]
      exact absurd hmem (by decide)
  · rintro rfl
    exact ⟨[], List.nil_suffix, by decide⟩

/-! ## Names with the small marker and names without it -/

theorem stripExtension_append (stem : String) : stripExtension (stem ++ extension) = stem := by
  rw [stripExtension, withoutEnding?_append, Option.getD_some]

theorem stripExtension_of_not {name : String} (h : ¬HasEnding name extension) :
    stripExtension name = name := by
  rw [stripExtension, withoutEnding?_of_not h, Option.getD_none]

/-- A name with the small marker has no extension. -/
theorem stripExtension_small (stem : String) :
    stripExtension (stem ++ smallMarker) = stem ++ smallMarker := by
  apply stripExtension_of_not
  intro h
  -- the small marker is what a song called `sm` would add
  have hsong : HasEnding "sm" extension := (hasEnding_append_songEnding stem "sm" (by decide)).1 h
  exact absurd hsong (by decide)

theorem splitMarker_append (stem : String) :
    splitMarker (stem ++ smallMarker) = (stem, smallMarker) := by
  rw [splitMarker, withoutEnding?_append]

theorem splitMarker_of_not {name : String} (h : ¬HasEnding name smallMarker) :
    splitMarker name = (name, "") := by
  rw [splitMarker, withoutEnding?_of_not h]

/-- A stem without the song at its end, if the song is there. -/
def withoutSong (stem song : String) : String :=
  if song = "" then stem else (withoutEnding? stem (songEnding song)).getD stem

theorem short_of_small {name song stem : String} (h : stripExtension name = stem ++ smallMarker) :
    short name song = withoutSong stem song ++ smallMarker := by
  rw [short, h, splitMarker_append]
  rfl

theorem short_of_not_small {name song : String} (h : ¬HasEnding (stripExtension name) smallMarker) :
    short name song = withoutSong (stripExtension name) song := by
  rw [short, splitMarker_of_not h]
  exact String.append_empty

/-- Without a song only the extension is dropped. -/
theorem short_empty (name : String) : short name "" = stripExtension name := by
  by_cases h : HasEnding (stripExtension name) smallMarker
  · obtain ⟨stem, hstem⟩ := hasEnding_iff.1 h
    rw [short_of_small hstem, hstem]
    rfl
  · rw [short_of_not_small h]
    rfl

/-- A short name keeps the small marker. -/
theorem hasSmall_short {name song : String} (h : HasEnding (stripExtension name) smallMarker) :
    HasEnding (short name song) smallMarker := by
  obtain ⟨stem, hstem⟩ := hasEnding_iff.1 h
  rw [short_of_small hstem]
  exact hasEnding_append _ _

section

variable {name song stem : String} (hsong : song ≠ "")

include hsong

theorem withoutSong_append : withoutSong (stem ++ songEnding song) song = stem := by
  rw [withoutSong, if_neg hsong, withoutEnding?_append, Option.getD_some]

theorem withoutSong_of_not (h : ¬HasEnding stem (songEnding song)) :
    withoutSong stem song = stem := by
  rw [withoutSong, if_neg hsong, withoutEnding?_of_not h, Option.getD_none]

theorem qualified_small :
    qualified (stem ++ smallMarker) song = stem ++ songEnding song ++ smallMarker := by
  rw [qualified, if_neg hsong, splitMarker_append]

theorem qualified_of_not_small (h : ¬HasEnding name smallMarker) :
    qualified name song = name ++ songEnding song := by
  rw [qualified, if_neg hsong, splitMarker_of_not h]
  exact String.append_empty

/-! ## From names to short names and back -/

/-- The song is put back where it was if it was there. -/
theorem withoutSong_append_songEnding_iff :
    withoutSong stem song ++ songEnding song = stem ↔ HasEnding stem (songEnding song) := by
  by_cases h : HasEnding stem (songEnding song)
  · obtain ⟨front, rfl⟩ := hasEnding_iff.1 h
    rw [withoutSong_append hsong]
    exact iff_of_true rfl h
  · rw [withoutSong_of_not hsong h]
    exact iff_of_false (append_songEnding_ne stem song) h

/-- A name with the small marker is recovered if the song stands in front of the marker. -/
theorem qualified_short_of_small (h : stripExtension name = stem ++ smallMarker) :
    qualified (short name song) song = stripExtension name ↔ HasEnding stem (songEnding song) := by
  rw [short_of_small h, qualified_small hsong, h, String.append_left_inj,
    withoutSong_append_songEnding_iff hsong]

/-- A name without the small marker is recovered if it ends with the song and what stands in front
of the song has no small marker either: the song would be put in front of that. -/
theorem qualified_short_of_not_small (h : ¬HasEnding (stripExtension name) smallMarker) :
    qualified (short name song) song = stripExtension name ↔
      ∃ stem, stripExtension name = stem ++ songEnding song ∧ ¬HasEnding stem smallMarker := by
  rw [short_of_not_small h]
  generalize stripExtension name = base at h
  by_cases hbase : HasEnding base (songEnding song)
  · obtain ⟨stem, rfl⟩ := hasEnding_iff.1 hbase
    rw [withoutSong_append hsong]
    simp only [String.append_left_inj, exists_eq_left']
    by_cases hstem : HasEnding stem smallMarker
    · obtain ⟨front, rfl⟩ := hasEnding_iff.1 hstem
      refine iff_of_false (fun heq ↦ h ?_) (not_not_intro hstem)
      rw [← heq, qualified_small hsong]
      exact hasEnding_append _ _
    · exact iff_of_true (qualified_of_not_small hsong hstem) hstem
  · rw [withoutSong_of_not hsong hbase, qualified_of_not_small hsong h]
    refine iff_of_false (append_songEnding_ne base song) ?_
    rintro ⟨stem, hstem, -⟩
    exact hbase (hasEnding_iff.2 ⟨stem, hstem⟩)

end

/-- **A name is recovered from its short name** exactly if there is no song, or the song stands in
front of the small marker, or the song stands at the end and there is no small marker, neither at
the end nor in front of the song. -/
theorem qualified_short_eq_iff (name song : String) :
    qualified (short name song) song = stripExtension name ↔
      song = "" ∨ (∃ stem, stripExtension name = stem ++ "_" ++ song ++ "_sm") ∨
        ∃ stem, stripExtension name = stem ++ "_" ++ song ∧
          ¬HasEnding (stripExtension name) "_sm" ∧ ¬HasEnding stem "_sm" := by
  have hassoc (stem : String) : stem ++ "_" ++ song = stem ++ songEnding song :=
    String.append_assoc
  simp only [hassoc]
  by_cases hsong : song = ""
  · subst hsong
    exact iff_of_true (short_empty name) (.inl rfl)
  rw [or_iff_right hsong]
  by_cases hsmall : HasEnding (stripExtension name) smallMarker
  · obtain ⟨stem, hstem⟩ := hasEnding_iff.1 hsmall
    rw [qualified_short_of_small hsong hstem, hasEnding_iff, or_iff_left]
    · rw [hstem]
      exact exists_congr fun _ ↦ (String.append_left_inj _).symm
    · exact fun ⟨_, _, hnot, _⟩ ↦ hnot hsmall
  · rw [qualified_short_of_not_small hsong hsmall, or_iff_right]
    · exact exists_congr fun _ ↦ and_congr_right fun _ ↦ (and_iff_right hsmall).symm
    · exact fun ⟨stem, hstem⟩ ↦ hsmall (hstem ▸ hasEnding_append _ _)

/-- A stem that has the small marker itself attracts the song. -/
example : qualified (short "wave_sm_gonow" "gonow") "gonow" = "wave_gonow_sm" := by decide

/-! ## From short names to names and back -/

section

variable {name song : String} (hsong : song ≠ "")

include hsong

/-- A short name with the small marker is recovered from every song. -/
theorem short_qualified_of_small (h : HasEnding name smallMarker) :
    short (qualified name song) song = name := by
  obtain ⟨stem, rfl⟩ := hasEnding_iff.1 h
  rw [qualified_small hsong, short_of_small (stripExtension_small _), withoutSong_append hsong]

/-- The extension of a song is lost. -/
theorem short_qualified_ne_of_extension (h : ¬HasEnding name smallMarker)
    (hext : HasEnding song extension) : short (qualified name song) song ≠ name := by
  obtain ⟨front, hfront⟩ := hasEnding_iff.1 hext
  have hstrip : stripExtension (name ++ songEnding song) = name ++ songEnding front := by
    have hassoc : name ++ songEnding song = name ++ songEnding front ++ extension := by
      simp only [hfront, songEnding, String.append_assoc]
    rw [hassoc, stripExtension_append]
  rw [qualified_of_not_small hsong h]
  intro heq
  by_cases hsmall : HasEnding (stripExtension (name ++ songEnding song)) smallMarker
  · exact h (heq ▸ hasSmall_short hsmall)
  · rw [short_of_not_small hsmall, hstrip] at heq
    by_cases hagain : HasEnding (name ++ songEnding front) (songEnding song)
    · -- then the song is as long with its extension as without
      rw [← withoutSong_append_songEnding_iff hsong, heq, String.append_right_inj, songEnding,
        songEnding, String.append_right_inj, hfront, String.append_eq_left_iff] at hagain
      exact absurd hagain (by decide)
    · rw [withoutSong_of_not hsong hagain] at heq
      exact append_songEnding_ne name front heq

/-- A song without an extension leaves the full name as it is, and then the short name comes back
unless the song looks like a small marker. -/
theorem short_qualified_of_not (h : ¬HasEnding name smallMarker) (hext : ¬HasEnding song extension) :
    short (qualified name song) song = name ↔ ¬(song = "sm" ∨ HasEnding song smallMarker) := by
  have hstrip : stripExtension (name ++ songEnding song) = name ++ songEnding song :=
    stripExtension_of_not fun hname ↦
      hext ((hasEnding_append_songEnding name song (by decide)).1 hname)
  rw [qualified_of_not_small hsong h, ← hasSmall_append_songEnding name song]
  by_cases hsmall : HasEnding (name ++ songEnding song) smallMarker
  · exact iff_of_false (fun heq ↦ h (heq ▸ hasSmall_short (hstrip.symm ▸ hsmall)))
      (not_not_intro hsmall)
  · refine iff_of_true ?_ hsmall
    rw [short_of_not_small (hstrip.symm ▸ hsmall), hstrip, withoutSong_append hsong]

end

/-- Without a song all is recovered but the extension. -/
theorem short_qualified_empty (name : String) :
    short (qualified name "") "" = name ↔ ¬HasEnding name extension := by
  rw [qualified, if_pos rfl, short_empty]
  refine ⟨fun heq hname ↦ ?_, stripExtension_of_not⟩
  obtain ⟨stem, rfl⟩ := hasEnding_iff.1 hname
  rw [stripExtension_append, eq_comm, String.append_eq_left_iff] at heq
  exact absurd heq (by decide)

/-- **A short name is recovered from the full one** exactly if it has no extension where there is no
song; and where there is one, if it has the small marker, or the song has no extension and is no
small marker and has none. -/
theorem short_qualified_eq_iff (name song : String) :
    short (qualified name song) song = name ↔
      if song = "" then ¬HasEnding name ".move"
      else HasEnding name "_sm" ∨ ¬HasEnding song ".move" ∧ song ≠ "sm" ∧ ¬HasEnding song "_sm" := by
  by_cases hsong : song = ""
  · subst hsong
    rw [if_pos rfl]
    exact short_qualified_empty name
  rw [if_neg hsong]
  by_cases hsmall : HasEnding name smallMarker
  · exact iff_of_true (short_qualified_of_small hsong hsmall) (.inl hsmall)
  · refine Iff.trans ?_ (or_iff_right hsmall).symm
    by_cases hext : HasEnding song extension
    · exact iff_of_false (short_qualified_ne_of_extension hsong hsmall hext) fun hnot ↦ hnot.1 hext
    · rw [short_qualified_of_not hsong hsmall hext, not_or]
      exact (and_iff_right hext).symm

/-- A song that ends like a small move is not taken off again. -/
example : short (qualified "wave" "go_sm") "go_sm" = "wave_go_sm" := by decide

end SongBundle.MoveName
