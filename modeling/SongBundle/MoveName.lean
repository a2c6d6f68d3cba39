/-!
# Names of moves

A move of a song is called `short_song`, or `short_song_sm` if it is one of the small ones, and an
editor may append `.move`.  Within a song the short name is enough.

* `MoveName.stripExtension` drops `.move`.
* `MoveName.short` drops the extension and the song, keeping the `_sm` marker.
* `MoveName.qualified` puts the song back.
-/

set_option autoImplicit false

namespace SongBundle.MoveName

/-- What an editor appends to the name of a move. -/
def extension : String := ".move"

/-- The marker at the end of the names of small moves. -/
def smallMarker : String := "_sm"

/-- A name without the given ending, if it has that ending. -/
def withoutEnding? (name ending : String) : Option String :=
  if ending.toList <:+ name.toList then
    some (String.ofList (name.toList.take (name.toList.length - ending.toList.length)))
  else none

/-- A name without an extension. -/
def stripExtension (name : String) : String := (withoutEnding? name extension).getD name

/-- A name without its small marker, and the marker if it had one. -/
def splitMarker (name : String) : String × String :=
  match withoutEnding? name smallMarker with
  | some stem => (stem, smallMarker)
  | none => (name, "")

/-- What the song adds to a short name. -/
def songEnding (song : String) : String := "_" ++ song

/-- The short name of a move of a song: extension and song are dropped, the small marker stays. -/
def short (name song : String) : String :=
  let (stem, marker) := splitMarker (stripExtension name)
  let stem := if song = "" then stem else (withoutEnding? stem (songEnding song)).getD stem
  stem ++ marker

/-- The full name of a move of a song, from its short name. -/
def qualified (short song : String) : String :=
  if song = "" then short
  else
    let (stem, marker) := splitMarker short
    stem ++ songEnding song ++ marker

/-! ## Endings -/

theorem withoutEnding?_append (stem ending : String) :
    withoutEnding? (stem ++ ending) ending = some stem := by
  rw [withoutEnding?, if_pos (by simp)]
  simp

end SongBundle.MoveName
