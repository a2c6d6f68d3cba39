import SongBundle.Event
import SongBundle.Word

/-!
# Battles: marks and steps

In a battle two players dance solos and minigames inside one song.  An author sets `Battle.Mark`s at
measures; the game plays `Battle.Step`s, each over an inclusive range of measures.
`SongBundle.Battle.Timeline` turns one into the other.
-/

set_option autoImplicit false

namespace SongBundle

open Json (Record Decoder)

/-- The measures from `first` to `last`, both included. -/
structure MeasureRange where
  first : UInt32
  last : UInt32
deriving DecidableEq, Repr

namespace MeasureRange

/-- The number of measures of a range, if its ends are in order. -/
def length (r : MeasureRange) : UInt32 := r.last - r.first + 1

/-- The length of a range by checked arithmetic. -/
def length? (r : MeasureRange) : Option UInt32 := do
  let difference ← minus? r.last r.first
  plus? difference 1

def fields : Record MeasureRange :=
  MeasureRange.mk <$> .required "start" Decoder.u32 <*> .required "end" Decoder.u32

def decoder : Decoder MeasureRange := fields.decoder "MeasureRange"

def toJson (r : MeasureRange) : Json :=
  .record [("start", .ofWord r.first), ("end", .ofWord r.last)]

end MeasureRange

namespace Battle

/-- The parts of a battle that interrupt common play. -/
inductive Kind where
  | firstSolo
  | secondSolo
  | minigame
deriving DecidableEq, Repr

/-- The words for a part in messages. -/
def Kind.label : Kind → String
  | .firstSolo => "player 1 solo"
  | .secondSolo => "player 2 solo"
  | .minigame => "minigame"

/-- What an author marks at a measure. -/
inductive Mark where
  | battleStart
  | opens (kind : Kind)
  | closes (kind : Kind)
deriving DecidableEq, Repr

/-- The name of a mark. -/
def Mark.text : Mark → String
  | .battleStart => "battle_start"
  | .opens .firstSolo => "p1_solo_start"
  | .closes .firstSolo => "p1_solo_end"
  | .opens .secondSolo => "p2_solo_start"
  | .closes .secondSolo => "p2_solo_end"
  | .opens .minigame => "minigame_start"
  | .closes .minigame => "minigame_end"

instance : Named Mark where
  what := "battle event type"
  all := [.battleStart, .opens .firstSolo, .closes .firstSolo, .opens .secondSolo,
    .closes .secondSolo, .opens .minigame, .closes .minigame]
  name := Mark.text

/-- A mark at a measure, counted from zero. -/
structure Event where
  measure : UInt32
  mark : Mark
deriving DecidableEq, Repr

namespace Event

def fields : Record Event :=
  Event.mk <$> .required "measure" Decoder.u32 <*> .required "type" Named.decoder

def decoder : Decoder Event := fields.decoder "BattleEvent"

def toJson (e : Event) : Json :=
  .record [("measure", .ofWord e.measure), ("type", Named.toJson e.mark)]

end Event

/-! ## Steps -/

/-- Who dances. -/
inductive Players where
  | both
  | first
  | second
deriving DecidableEq, Repr

/-- The name of a set of players. -/
def Players.text : Players → String
  | .both => "both"
  | .first => "p1"
  | .second => "p2"

instance : Named Players where
  what := "players"
  all := [.both, .first, .second]
  name := Players.text

/-- What kind of play a step is. -/
inductive Mode where
  | normal
  | solo
  | minigame
deriving DecidableEq, Repr

/-- The name of a kind of play. -/
def Mode.text : Mode → String
  | .normal => "normal"
  | .solo => "solo"
  | .minigame => "minigame"

instance : Named Mode where
  what := "battle step state"
  all := [.normal, .solo, .minigame]
  name := Mode.text

/-- Where the camera looks. -/
inductive Camera where
  | normal
  | firstSolo
  | secondSolo
  | minigame
deriving DecidableEq, Repr

/-- The name of a camera. -/
def Camera.text : Camera → String
  | .normal => "normal"
  | .firstSolo => "p1_solo"
  | .secondSolo => "p2_solo"
  | .minigame => "minigame"

instance : Named Camera where
  what := "battle camera"
  all := [.normal, .firstSolo, .secondSolo, .minigame]
  name := Camera.text

/-- What a player does who does not dance. -/
inductive Pastime where
  | none
  | watch
  | idle
deriving DecidableEq, Repr

/-- The name of a pastime. -/
def Pastime.text : Pastime → String
  | .none => "none"
  | .watch => "watch"
  | .idle => "idle"

instance : Named Pastime where
  what := "nonplay action"
  all := [.none, .watch, .idle]
  name := Pastime.text

/-- A stretch of a battle. -/
structure Step where
  players : Players
  /-- The measures during which the music plays. -/
  music : MeasureRange
  /-- The measures that are danced; none before the battle starts. -/
  play : Option MeasureRange
  camera : Camera
  pastime : Pastime
  mode : Mode
deriving DecidableEq, Repr

namespace Step

def fields : Record Step :=
  Step.mk <$> .required "players" Named.decoder <*> .required "music_range" MeasureRange.decoder
    <*> .nullable "play_range" MeasureRange.decoder <*> .required "camera" Named.decoder
    <*> .required "nonplay_action" Named.decoder <*> .required "state" Named.decoder

def decoder : Decoder Step := fields.decoder "BattleStep"

def toJson (s : Step) : Json :=
  .record [("players", Named.toJson s.players), ("music_range", s.music.toJson),
    ("play_range", .ofOption MeasureRange.toJson s.play), ("camera", Named.toJson s.camera),
    ("nonplay_action", Named.toJson s.pastime), ("state", Named.toJson s.mode)]

end Step

end Battle

end SongBundle
