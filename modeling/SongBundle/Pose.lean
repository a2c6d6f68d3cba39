import SongBundle.Event

/-!
# Pose sequences

A move is stored as a sequence of poses.  Each `Pose.Frame` stands at a beat of the move; its offset
is the beat of the song at which the move was placed.
-/

set_option autoImplicit false

namespace SongBundle.Pose

open Json (Record Decoder)

/-- A pose at a beat. -/
structure Frame where
  beat : Float32
  /-- The beat of the song where the move starts. -/
  offset : Float32
  pose : List Float32

/-- How the frames of a sequence are to be read. -/
structure Header where
  version : UInt32
  skeleton : String
  framesPerBeat : UInt32
deriving DecidableEq, Repr

/-- The header of a sequence that states none. -/
def Header.default : Header := ⟨1, "default", 8⟩

/-- A named run of poses. -/
structure Sequence where
  name : String
  header : Header
  frames : List Frame

/-! ## JSON -/

def Frame.fields : Record Frame :=
  Frame.mk <$> .required "beat" Decoder.single <*> .optional "beat_offset" Decoder.single 0
    <*> .optional "pose" (Decoder.list Decoder.single) []

def Frame.decoder : Decoder Frame := Frame.fields.decoder "PoseFrame"

def Frame.toJson (f : Frame) : Json :=
  .record [("beat", .ofSingle f.beat), ("beat_offset", .ofSingle f.offset),
    ("pose", .ofList .ofSingle f.pose)]

def Header.fields : Record Header :=
  Header.mk <$> .required "version" Decoder.u32 <*> .required "skeleton" Decoder.text
    <*> .required "frames_per_beat" Decoder.u32

def Header.decoder : Decoder Header := Header.fields.decoder "SequenceHeader"

def Header.toJson (h : Header) : Json :=
  .record [("version", .ofWord h.version), ("skeleton", .ofString h.skeleton),
    ("frames_per_beat", .ofWord h.framesPerBeat)]

namespace Sequence

def fields : Record Sequence :=
  Sequence.mk <$> .required "name" Decoder.text
    <*> .optional "header" Header.decoder Header.default
    <*> .optional "frames" (Decoder.list Frame.decoder) []

def decoder : Decoder Sequence := fields.decoder "FrameSequence"

def toJson (s : Sequence) : Json :=
  .record [("name", .ofString s.name), ("header", s.header.toJson),
    ("frames", .ofList Frame.toJson s.frames)]

end Sequence

end SongBundle.Pose
