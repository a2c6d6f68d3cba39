import SongBundle.Library.Basic
import SongBundle.Track
import SongBundle.Word

/-!
# The graph of moves

The clips of a song are the nodes of a `MoveGraph`, and the moves gather them.  Two clips are
neighbours if one is played right after the other at some level; a clip used at several levels has
the neighbours it has at any of them.

* `MoveGraph.addTrack` merges a level into the graph.
* `MoveGraph.build` merges several levels and marks the moves for beginners.

From every entry of a track the graph looks one index ahead.  After the greatest index there is no
other, so a track with an entry there cannot be merged: the program ends (`MoveGraph.clipAfter`).
-/

set_option autoImplicit false

namespace SongBundle

open Json (Record Decoder)

/-- A clip and its neighbours. -/
structure MoveVariant where
  clip : String
  /-- The name of the move. -/
  parent : String
  /-- The clips played right before it. -/
  before : Names
  /-- The clips played right after it. -/
  after : Names
  genre : String
  era : String
  links : List String
  flags : UInt32

/-- A move and its clips. -/
structure MoveParent where
  name : String
  displayName : String
  songName : String
  /-- The clips of the move. -/
  variants : Names
  genres : Names
  eras : Names
  beginner : Bool

/-- The moves and clips of a song. -/
structure MoveGraph where
  /-- The moves by name. -/
  parents : Table String MoveParent
  /-- The clips by name. -/
  variants : Table String MoveVariant
  /-- The clips of each level in the order of play. -/
  clipOrder : Table Difficulty (List String)

/-! ## JSON -/

namespace MoveVariant

def fields : Record MoveVariant :=
  MoveVariant.mk <$> .required "clip" Decoder.text <*> .required "parent" Decoder.text
    <*> .required "prev" Decoder.names <*> .required "next" Decoder.names
    <*> .required "genre" Decoder.text <*> .required "era" Decoder.text
    <*> .required "links" (Decoder.list Decoder.text) <*> .required "flags" Decoder.u32

def decoder : Decoder MoveVariant := fields.decoder "MoveVariant"

def toJson (v : MoveVariant) : Json :=
  .record [("clip", .ofString v.clip), ("parent", .ofString v.parent), ("prev", .ofNames v.before),
    ("next", .ofNames v.after), ("genre", .ofString v.genre), ("era", .ofString v.era),
    ("links", .ofList .ofString v.links), ("flags", .ofWord v.flags)]

end MoveVariant

namespace MoveParent

def fields : Record MoveParent :=
  MoveParent.mk <$> .required "name" Decoder.text <*> .required "display_name" Decoder.text
    <*> .required "song_name" Decoder.text <*> .required "variants" Decoder.names
    <*> .required "genres" Decoder.names <*> .required "eras" Decoder.names
    <*> .required "beginner" Decoder.bool

def decoder : Decoder MoveParent := fields.decoder "MoveParent"

def toJson (p : MoveParent) : Json :=
  .record [("name", .ofString p.name), ("display_name", .ofString p.displayName),
    ("song_name", .ofString p.songName), ("variants", .ofNames p.variants),
    ("genres", .ofNames p.genres), ("eras", .ofNames p.eras), ("beginner", .bool p.beginner)]

end MoveParent

namespace MoveGraph

def fields : Record MoveGraph :=
  MoveGraph.mk <$> .required "parents" (Decoder.table Decoder.lexeme MoveParent.decoder)
    <*> .required "variants" (Decoder.table Decoder.lexeme MoveVariant.decoder)
    <*> .required "clip_order" (Decoder.table Named.key (Decoder.list Decoder.text))

def decoder : Decoder MoveGraph := fields.decoder "MoveGraph"

def toJson (g : MoveGraph) : Json :=
  .record [("parents", .ofTable id MoveParent.toJson g.parents),
    ("variants", .ofTable id MoveVariant.toJson g.variants),
    ("clip_order", .ofTable Difficulty.text (.ofList .ofString) g.clipOrder)]

/-! ## Construction -/

/-- The graph without moves. -/
def empty : MoveGraph := ⟨.empty, .empty, .empty⟩

/-- The clip at an index of a track. -/
def clipAt? (t : Track Move) (index : UInt32) : Option String := (t.get? index).map Move.clip

/-- The clip right before an index. -/
def clipBefore? (t : Track Move) (index : UInt32) : Option String :=
  if index = 0 then none else clipAt? t (index - 1)

/-- The clip right after an index, unless the next index is no word. -/
def clipAfter (t : Track Move) (index : UInt32) : Option (Option String) :=
  (plus? index 1).map (clipAt? t)

/-- A clip without neighbours. -/
def newVariant (m : Move) : MoveVariant :=
  ⟨m.clip, m.name, .empty, .empty, m.genre, m.era, m.links, m.flags⟩

/-- A move without clips. -/
def newParent (m : Move) : MoveParent :=
  ⟨m.name, m.displayName, m.songName, .empty, .empty, .empty, false⟩

/-- A clip with one more neighbour on either side, as far as there are neighbours. -/
def extendVariant (v : MoveVariant) (before after : Option String) : MoveVariant :=
  { v with before := v.before.addAll before.toList, after := v.after.addAll after.toList }

/-- A move with one more clip. -/
def extendParent (p : MoveParent) (clip : String) (v : MoveVariant) : MoveParent :=
  { p with
    variants := p.variants.add clip
    genres := p.genres.addAll ([v.genre].filter (· ≠ ""))
    eras := p.eras.addAll ([v.era].filter (· ≠ "")) }

/-- Merges a move that is played between two clips.  The first move with a clip describes the clip,
and the first move with a name describes the move. -/
def mergeMove (g : MoveGraph) (m : Move) (before after : Option String) : MoveGraph :=
  let v := extendVariant ((g.variants.get? m.clip).getD (newVariant m)) before after
  let p := extendParent ((g.parents.get? m.name).getD (newParent m)) m.clip v
  { g with variants := g.variants.insert m.clip v, parents := g.parents.insert m.name p }

/-- Merges the move at an index of a track. -/
def addMove (t : Track Move) (g : MoveGraph) (index : UInt32) (m : Move) : Option MoveGraph := do
  let after ← clipAfter t index
  return g.mergeMove m (clipBefore? t index) after

/-- Sets the order of play of a level. -/
def setOrder (g : MoveGraph) (level : Difficulty) (t : Track Move) : MoveGraph :=
  { g with clipOrder := g.clipOrder.insert level (t.values.map Move.clip) }

/-- Merges a level, replacing its order of play. -/
def addTrack (g : MoveGraph) (level : Difficulty) (t : Track Move) : Option MoveGraph := do
  let merged ← t.toList.foldlM (fun g e ↦ addMove t g e.1 e.2) g
  return merged.setOrder level t

/-- Marks a move as fit for beginners, if the graph has it. -/
def markOne (g : MoveGraph) (name : String) : MoveGraph :=
  match g.parents.get? name with
  | some p => { g with parents := g.parents.insert name { p with beginner := true } }
  | none => g

/-- Marks moves as fit for beginners, passing over those that the graph does not have. -/
def markBeginner (g : MoveGraph) (names : List String) : MoveGraph := names.foldl markOne g

/-- The graph of several levels. -/
def build (tracks : List (Difficulty × Track Move)) (beginnerMoves : List String) :
    Option MoveGraph := do
  let merged ← tracks.foldlM (fun g l ↦ g.addTrack l.1 l.2) empty
  return merged.markBeginner beginnerMoves

/-- The clip with a name. -/
def variant? (g : MoveGraph) (clip : String) : Option MoveVariant := g.variants.get? clip

end MoveGraph

end SongBundle
