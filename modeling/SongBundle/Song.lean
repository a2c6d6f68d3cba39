import SongBundle.Difficulty
import SongBundle.Event

/-!
# Songs

What is known of a song as a whole, and the manifest that a bundle carries about it.
-/

set_option autoImplicit false

namespace SongBundle

open Json (Record Decoder)

/-- The description of a song. -/
structure SongMetadata where
  /-- The short name, which the names of its moves end in. -/
  name : String
  title : String
  artist : String
  bpm : Float
  previewStart : Float
  previewEnd : Float
  venue : String
  characters : List String
  genre : String
  year : Option UInt32

namespace SongMetadata

def fields : Record SongMetadata :=
  SongMetadata.mk <$> .required "name" Decoder.text <*> .optional "title" Decoder.text ""
    <*> .optional "artist" Decoder.text "" <*> .optional "bpm" Decoder.double 0
    <*> .optional "preview_start" Decoder.double 0 <*> .optional "preview_end" Decoder.double 0
    <*> .optional "venue" Decoder.text "" <*> .optional "characters" (Decoder.list Decoder.text) []
    <*> .optional "genre" Decoder.text "" <*> .nullableAtEnd "year" Decoder.u32

def decoder : Decoder SongMetadata := fields.decoder "SongMetadata"

def toJson (s : SongMetadata) : Json :=
  .record [("name", .ofString s.name), ("title", .ofString s.title),
    ("artist", .ofString s.artist), ("bpm", .ofDouble s.bpm),
    ("preview_start", .ofDouble s.previewStart), ("preview_end", .ofDouble s.previewEnd),
    ("venue", .ofString s.venue), ("characters", .ofList .ofString s.characters),
    ("genre", .ofString s.genre), ("year", .ofOption .ofWord s.year)]

end SongMetadata

/-- How often a phrase is repeated. -/
structure PhraseRepeat where
  phrase : String
  count : UInt32
deriving DecidableEq, Repr

namespace PhraseRepeat

def fields : Record PhraseRepeat :=
  PhraseRepeat.mk <$> .required "phrase" Decoder.text <*> .required "count" Decoder.u32

def decoder : Decoder PhraseRepeat := fields.decoder "PhraseRepeat"

def toJson (p : PhraseRepeat) : Json :=
  .record [("phrase", .ofString p.phrase), ("count", .ofWord p.count)]

end PhraseRepeat

/-- How a bundle is to be compressed by those who ship it. -/
inductive Compression where
  | none
  | fast
  | best
deriving DecidableEq, Repr

/-- The name of a way to compress. -/
def Compression.text : Compression → String
  | .none => "none"
  | .fast => "fast"
  | .best => "best"

instance : Named Compression where
  what := "compression mode"
  all := [.none, .fast, .best]
  name := Compression.text

/-- What a bundle says about its song. -/
structure SongManifest where
  song : SongMetadata
  compression : Compression
  totalMeasures : UInt32
  /-- The levels that can be danced. -/
  difficulties : List Difficulty
  phraseRepeats : List PhraseRepeat

namespace SongManifest

def fields : Record SongManifest :=
  SongManifest.mk <$> .required "song" SongMetadata.decoder
    <*> .required "compression" Named.decoder <*> .required "total_measures" Decoder.u32
    <*> .required "difficulties" (Decoder.list Named.decoder)
    <*> .required "phrase_repeats" (Decoder.list PhraseRepeat.decoder)

def decoder : Decoder SongManifest := fields.decoder "SongManifest"

def toJson (m : SongManifest) : Json :=
  .record [("song", m.song.toJson), ("compression", Named.toJson m.compression),
    ("total_measures", .ofWord m.totalMeasures),
    ("difficulties", .ofList Named.toJson m.difficulties),
    ("phrase_repeats", .ofList PhraseRepeat.toJson m.phraseRepeats)]

end SongManifest

end SongBundle
