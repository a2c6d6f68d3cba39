import SongBundle.Event

/-!
# Tempo, milestones and drums

What an author states about the timing of a song: where the tempo changes, when the milestones of the
song are reached, and when the drums are hit.
-/

set_option autoImplicit false

namespace SongBundle

open Json (Record Decoder)

/-- A tempo that takes effect at a measure, counted from zero. -/
structure TempoChange where
  measure : UInt32
  /-- The number of beats in a minute. -/
  bpm : Float

namespace TempoChange

def fields : Record TempoChange :=
  TempoChange.mk <$> .required "measure" Decoder.u32 <*> .required "bpm" Decoder.double

def decoder : Decoder TempoChange := fields.decoder "TempoChange"

def toJson (c : TempoChange) : Json :=
  .record [("measure", .ofWord c.measure), ("bpm", .ofDouble c.bpm)]

end TempoChange

/-! ## Milestones -/

/-- The milestones of a song. -/
inductive Milestone where
  | musicStart
  | preview
  | freestyleStart
  | freestyleEnd
  | musicEnd
  | finish
deriving DecidableEq, Repr

namespace Milestone

/-- The name of a milestone. -/
def text : Milestone → String
  | musicStart => "music_start"
  | preview => "preview"
  | freestyleStart => "freestyle_start"
  | freestyleEnd => "freestyle_end"
  | musicEnd => "music_end"
  | finish => "end"

instance : Named Milestone where
  what := "song event type"
  all := [musicStart, preview, freestyleStart, freestyleEnd, musicEnd, finish]
  name := text

/-- The text that marks a milestone in a timing file. -/
def token (m : Milestone) : String := s!"[{m.text}]"

end Milestone

/-- A milestone at a beat, counted from zero. -/
structure SongEvent where
  beat : Float
  milestone : Milestone

namespace SongEvent

def fields : Record SongEvent :=
  SongEvent.mk <$> .required "beat" Decoder.double <*> .required "type" Named.decoder

def decoder : Decoder SongEvent := fields.decoder "SongEvent"

def toJson (e : SongEvent) : Json :=
  .record [("beat", .ofDouble e.beat), ("type", Named.toJson e.milestone)]

end SongEvent

/-! ## Drums -/

/-- The hits on one drum. -/
structure DrumTrack where
  sound : String
  /-- The half beats, counted from zero, at which the drum is hit. -/
  hits : List UInt32
deriving DecidableEq, Repr

namespace DrumTrack

def fields : Record DrumTrack :=
  DrumTrack.mk <$> .required "sound_id" Decoder.text
    <*> .required "hits" (Decoder.list Decoder.u32)

def decoder : Decoder DrumTrack := fields.decoder "DrumTrack"

def toJson (d : DrumTrack) : Json :=
  .record [("sound_id", .ofString d.sound), ("hits", .ofList .ofWord d.hits)]

end DrumTrack

/-- The notes of the known drums. -/
def drumNotes : List (String × Nat) :=
  [("kick", 36), ("snare", 38), ("clap", 39), ("hihat", 42), ("tom_low", 45), ("open_hihat", 46),
    ("tom_mid", 47), ("crash", 49), ("tom_high", 50), ("ride", 51)]

/-- The note of a drum that is not known. -/
def defaultDrumNote : Nat := 60

/-- The note that sounds a drum. -/
def drumNote (sound : String) : Nat := (drumNotes.lookup sound).getD defaultDrumNote

end SongBundle
