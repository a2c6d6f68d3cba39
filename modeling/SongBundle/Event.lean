import SongBundle.Error

/-!
# Events on the timelines of a song

An editor places moves at measures, and cameras and expressions at beats, all counted from one.
Between two events the earlier one stays in force (`SongBundle.Track`).
-/

set_option autoImplicit false

namespace SongBundle

open Json (Record Decoder)

/-- A move that dancers start at a measure. -/
structure MoveEvent where
  measure : UInt32
  clip : String
  origin : String
  song : String
  /-- The name of the move, with or without extension. -/
  move : String
deriving DecidableEq, Repr

/-- A camera position taken at a beat. -/
structure CameraEvent where
  beat : UInt32
  position : String
deriving DecidableEq, Repr

/-- A facial expression taken at a beat. -/
structure ExpressionEvent where
  beat : UInt32
  name : String
deriving DecidableEq, Repr

/-- A 32-bit number as JSON. -/
def Json.ofWord (n : UInt32) : Json := .ofNat n.toNat

namespace MoveEvent

def fields : Record MoveEvent :=
  MoveEvent.mk <$> .required "measure" Decoder.u32 <*> .required "clip" Decoder.text
    <*> .required "move_origin" Decoder.text <*> .required "move_song" Decoder.text
    <*> .required "move" Decoder.text

def decoder : Decoder MoveEvent := fields.decoder "MoveEvent"

def toJson (e : MoveEvent) : Json :=
  .record [("measure", .ofWord e.measure), ("clip", .ofString e.clip),
    ("move_origin", .ofString e.origin), ("move_song", .ofString e.song),
    ("move", .ofString e.move)]

end MoveEvent

namespace CameraEvent

def fields : Record CameraEvent :=
  CameraEvent.mk <$> .required "beat" Decoder.u32 <*> .required "position" Decoder.text

def decoder : Decoder CameraEvent := fields.decoder "CameraEvent"

def toJson (e : CameraEvent) : Json :=
  .record [("beat", .ofWord e.beat), ("position", .ofString e.position)]

end CameraEvent

namespace ExpressionEvent

def fields : Record ExpressionEvent :=
  ExpressionEvent.mk <$> .required "beat" Decoder.u32 <*> .required "name" Decoder.text

def decoder : Decoder ExpressionEvent := fields.decoder "ExpressionEvent"

def toJson (e : ExpressionEvent) : Json :=
  .record [("beat", .ofWord e.beat), ("name", .ofString e.name)]

end ExpressionEvent

end SongBundle
