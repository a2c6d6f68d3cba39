import SongBundle.Battle.Basic
import SongBundle.PartyJump
import SongBundle.Song
import SongBundle.Timing.Basic

/-!
# Build requests and settings

A `BuildRequest` is what an author hands in: the song, its events by level, and where the bundle goes.
A `BuildConfig` holds the settings that stay the same from song to song.
-/

set_option autoImplicit false

namespace SongBundle

open Json (Record Decoder)

/-- Everything that a bundle is built from, the moves of the library aside. -/
structure BuildRequest where
  /-- The directory that takes the bundle. -/
  outputPath : String
  /-- The directory of the move library. -/
  libraryRoot : String
  song : SongMetadata
  totalMeasures : UInt32
  compression : Compression
  moves : Table Difficulty (List MoveEvent)
  cameras : Table Difficulty (List CameraEvent)
  /-- The sections in which a level is practised. -/
  practice : Table Difficulty (List (List MoveEvent))
  tempo : List TempoChange
  /-- The names of moves fit for beginners. -/
  beginnerMoves : List String
  drums : List DrumTrack
  songEvents : List SongEvent
  partyJumps : List PartyJump.Event
  battle : List Battle.Event
  phraseRepeats : List PhraseRepeat
  visemes : List ExpressionEvent

namespace BuildRequest

/-- Reads a table of lists by level. -/
def byLevel {α : Type} (item : Decoder α) : Decoder (Table Difficulty (List α)) :=
  Decoder.table Named.key (Decoder.list item)

/-- Writes a table of lists by level. -/
def ofLevels {α : Type} (f : α → Json) (t : Table Difficulty (List α)) : Json :=
  .ofTable Difficulty.text (.ofList f) t

def fields : Record BuildRequest :=
  BuildRequest.mk <$> .required "output_path" Decoder.path
    <*> .required "library_root" Decoder.path <*> .required "song" SongMetadata.decoder
    <*> .required "total_measures" Decoder.u32
    <*> .optional "compression" Named.decoder .none
    <*> .optional "moves" (byLevel MoveEvent.decoder) .empty
    <*> .optional "cameras" (byLevel CameraEvent.decoder) .empty
    <*> .optional "practice" (byLevel (Decoder.list MoveEvent.decoder)) .empty
    <*> .optional "tempo" (Decoder.list TempoChange.decoder) []
    <*> .optional "beginner_moves" (Decoder.list Decoder.text) []
    <*> .optional "drums" (Decoder.list DrumTrack.decoder) []
    <*> .optional "song_events" (Decoder.list SongEvent.decoder) []
    <*> .optional "party_jumps" (Decoder.list PartyJump.Event.decoder) []
    <*> .optional "battle" (Decoder.list Battle.Event.decoder) []
    <*> .optional "phrase_repeats" (Decoder.list PhraseRepeat.decoder) []
    <*> .optional "visemes" (Decoder.list ExpressionEvent.decoder) []

def decoder : Decoder BuildRequest := fields.decoder "BuildRequest"

def toJson (r : BuildRequest) : Json :=
  .record [("output_path", .ofString r.outputPath), ("library_root", .ofString r.libraryRoot),
    ("song", r.song.toJson), ("total_measures", .ofWord r.totalMeasures),
    ("compression", Named.toJson r.compression), ("moves", ofLevels MoveEvent.toJson r.moves),
    ("cameras", ofLevels CameraEvent.toJson r.cameras),
    ("practice", ofLevels (.ofList MoveEvent.toJson) r.practice),
    ("tempo", .ofList TempoChange.toJson r.tempo),
    ("beginner_moves", .ofList .ofString r.beginnerMoves),
    ("drums", .ofList DrumTrack.toJson r.drums),
    ("song_events", .ofList SongEvent.toJson r.songEvents),
    ("party_jumps", .ofList PartyJump.Event.toJson r.partyJumps),
    ("battle", .ofList Battle.Event.toJson r.battle),
    ("phrase_repeats", .ofList PhraseRepeat.toJson r.phraseRepeats),
    ("visemes", .ofList ExpressionEvent.toJson r.visemes)]

end BuildRequest

/-! ## Settings -/

/-- How songs are counted. -/
structure TimingConfig where
  beatsPerMeasure : UInt32
deriving DecidableEq, Repr

/-- Where the inputs are that no request names. -/
structure PathConfig where
  /-- The directory of the template that bundles start from. -/
  templateDirectory : Option String
deriving DecidableEq, Repr

/-- The settings of a build. -/
structure BuildConfig where
  timing : TimingConfig
  paths : PathConfig
deriving DecidableEq, Repr

namespace TimingConfig

/-- Four beats to a measure. -/
def default : TimingConfig := ⟨4⟩

def fields : Record TimingConfig :=
  TimingConfig.mk <$> .required "beats_per_measure" Decoder.u32

def decoder : Decoder TimingConfig := fields.decoder "TimingConfig"

def toJson (c : TimingConfig) : Json :=
  .record [("beats_per_measure", .ofWord c.beatsPerMeasure)]

end TimingConfig

namespace PathConfig

/-- No template. -/
def default : PathConfig := ⟨none⟩

def fields : Record PathConfig := PathConfig.mk <$> .nullableAtEnd "template_dir" Decoder.path

def decoder : Decoder PathConfig := fields.decoder "PathConfig"

def toJson (c : PathConfig) : Json :=
  .record [("template_dir", .ofOption .ofString c.templateDirectory)]

end PathConfig

namespace BuildConfig

/-- The settings where none are stated. -/
def default : BuildConfig := ⟨.default, .default⟩

def fields : Record BuildConfig :=
  BuildConfig.mk <$> .optional "timing" TimingConfig.decoder .default
    <*> .optional "paths" PathConfig.decoder .default

def decoder : Decoder BuildConfig := fields.decoder "BuildConfig"

def toJson (c : BuildConfig) : Json :=
  .record [("timing", c.timing.toJson), ("paths", c.paths.toJson)]

end BuildConfig

end SongBundle
