import SongBundle.Library.Basic
import SongBundle.Track
import SongBundle.Word

/-!
# Animation keyframes

An animation curve has sixty units to an index of a track, and index one stands at time zero.
`AnimEvents.ofTracks` turns the tracks of a level into keyframes that name what is shown.
-/

set_option autoImplicit false

namespace SongBundle

open Json (Record Decoder)

/-- The units of an animation curve between two indices. -/
def unitsPerIndex : Int64 := 60

/-- The time of an index. -/
def animTime (index : Int64) : Int64 := (index - 1) * unitsPerIndex

/-- The time of an index by checked arithmetic. -/
def animTime? (index : Int64) : Option Int64 := do
  let before ← signed? (index.toInt - 1)
  signed? (before.toInt * unitsPerIndex.toInt)

/-- A name that takes effect at a time. -/
structure Keyframe where
  time : Int64
  value : String
deriving DecidableEq, Repr

/-- The keyframes of a level. -/
structure AnimEvents where
  clips : List Keyframe
  moves : List Keyframe
  cameras : List Keyframe
  expressions : List Keyframe
deriving DecidableEq, Repr

namespace Keyframe

def fields : Record Keyframe :=
  Keyframe.mk <$> .required "time" Decoder.i64 <*> .required "value" Decoder.text

def decoder : Decoder Keyframe := fields.decoder "Keyframe"

def toJson (k : Keyframe) : Json :=
  .record [("time", .ofInt k.time.toInt), ("value", .ofString k.value)]

end Keyframe

namespace AnimEvents

def fields : Record AnimEvents :=
  AnimEvents.mk <$> .required "clips" (Decoder.list Keyframe.decoder)
    <*> .required "moves" (Decoder.list Keyframe.decoder)
    <*> .required "cameras" (Decoder.list Keyframe.decoder)
    <*> .required "expressions" (Decoder.list Keyframe.decoder)

def decoder : Decoder AnimEvents := fields.decoder "AnimEvents"

def toJson (a : AnimEvents) : Json :=
  .record [("clips", .ofList Keyframe.toJson a.clips), ("moves", .ofList Keyframe.toJson a.moves),
    ("cameras", .ofList Keyframe.toJson a.cameras),
    ("expressions", .ofList Keyframe.toJson a.expressions)]

end AnimEvents

/-- A keyframe for every entry of a track. -/
def keyframes {α : Type} (value : α → String) (t : Track α) : List Keyframe :=
  t.toList.map fun e ↦ ⟨animTime (Int64.ofNat e.1.toNat), value e.2⟩

/-- The keyframes of a level, which may lack moves or cameras. -/
def AnimEvents.ofTracks (moves : Option (Track Move)) (cameras : Option (Track String))
    (expressions : Track String) : AnimEvents where
  clips := (moves.map (keyframes Move.clip)).getD []
  moves := (moves.map (keyframes Move.name)).getD []
  cameras := (cameras.map (keyframes id)).getD []
  expressions := keyframes id expressions

end SongBundle
