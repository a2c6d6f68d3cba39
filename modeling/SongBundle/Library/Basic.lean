import SongBundle.Files.Tree
import SongBundle.MoveName
import SongBundle.Pose

/-!
# The move library

A library holds, for every `MoveKey`, the description of a move and its poses.  A `Library` is
whatever answers these two questions; `Library.ofTables` answers from tables, `Library.ofFolder` from
the directories `origin/song/name` below a root.
-/

set_option autoImplicit false

namespace SongBundle

open Json (Record Decoder)
open Std

/-! ## Keys -/

/-- The full name of a move. -/
structure MoveKey where
  origin : String
  song : String
  name : String
deriving DecidableEq, Repr

namespace MoveKey

/-- The parts of a key, the most general one first. -/
def parts (k : MoveKey) : List String := [k.origin, k.song, k.name]

theorem parts_inj {a b : MoveKey} (h : a.parts = b.parts) : a = b := by
  cases a
  cases b
  simp_all [parts]

instance : Ord MoveKey := ⟨compareOn parts⟩

instance : TransOrd MoveKey := inferInstanceAs (TransCmp (compareOn parts))

instance : LawfulEqOrd MoveKey where
  eq_of_compare h := parts_inj (LawfulEqOrd.eq_of_compare h)

/-- The key of the move placed by an event. -/
def ofEvent (e : MoveEvent) : MoveKey := ⟨e.origin, e.song, MoveName.stripExtension e.move⟩

/-- The directory of a move, seen from the root of a library. -/
def directory (k : MoveKey) : String := Path.join (Path.join k.origin k.song) k.name

/-- A key in messages. -/
def text (k : MoveKey) : String := s!"{k.origin}/{k.song}/{k.name}"

def fields : Record MoveKey :=
  MoveKey.mk <$> .required "origin" Decoder.text <*> .required "song" Decoder.text
    <*> .required "name" Decoder.text

def decoder : Decoder MoveKey := fields.decoder "MoveKey"

def toJson (k : MoveKey) : Json :=
  .record [("origin", .ofString k.origin), ("song", .ofString k.song), ("name", .ofString k.name)]

end MoveKey

/-! ## Descriptions -/

/-- What is known of a clip of a move. -/
structure ClipMetadata where
  genre : String
  era : String
  flags : UInt32
  links : List String
deriving DecidableEq, Repr

namespace ClipMetadata

def fields : Record ClipMetadata :=
  ClipMetadata.mk <$> .optional "genre" Decoder.text "" <*> .optional "era" Decoder.text ""
    <*> .optional "flags" Decoder.u32 0 <*> .optional "links" (Decoder.list Decoder.text) []

def decoder : Decoder ClipMetadata := fields.decoder "ClipMetadata"

def toJson (c : ClipMetadata) : Json :=
  .record [("genre", .ofString c.genre), ("era", .ofString c.era), ("flags", .ofWord c.flags),
    ("links", .ofList .ofString c.links)]

end ClipMetadata

/-- What is known of a move. -/
structure MoveMetadata where
  name : String
  internalNames : List String
  displayName : String
  songName : String
  difficulty : UInt32
  tempoFit : Float
  barks : List String
  clips : Table String ClipMetadata

namespace MoveMetadata

def fields : Record MoveMetadata :=
  MoveMetadata.mk <$> .required "name" Decoder.text
    <*> .optional "internal_names" (Decoder.list Decoder.text) []
    <*> .optional "display_name" Decoder.text "" <*> .optional "song_name" Decoder.text ""
    <*> .optional "difficulty" Decoder.u32 0 <*> .optional "tempo_fit" Decoder.double 0
    <*> .optional "barks" (Decoder.list Decoder.text) []
    <*> .optional "clips" (Decoder.table Decoder.lexeme ClipMetadata.decoder) .empty

def decoder : Decoder MoveMetadata := fields.decoder "MoveMetadata"

def toJson (m : MoveMetadata) : Json :=
  .record [("name", .ofString m.name), ("internal_names", .ofList .ofString m.internalNames),
    ("display_name", .ofString m.displayName), ("song_name", .ofString m.songName),
    ("difficulty", .ofWord m.difficulty), ("tempo_fit", .ofDouble m.tempoFit),
    ("barks", .ofList .ofString m.barks), ("clips", .ofTable id ClipMetadata.toJson m.clips)]

end MoveMetadata

/-- A move placed in a song, with what the library knows of it. -/
structure Move where
  measure : UInt32
  clip : String
  key : MoveKey
  name : String
  displayName : String
  songName : String
  genre : String
  era : String
  links : List String
  tempoFit : Float
  flags : UInt32

namespace Move

/-- A move placed by an event, from its description and that of its clip. -/
def of (e : MoveEvent) (m : MoveMetadata) (c : ClipMetadata) : Move where
  measure := e.measure
  clip := e.clip
  key := .ofEvent e
  name := m.name
  displayName := m.displayName
  songName := m.songName
  genre := c.genre
  era := c.era
  links := c.links
  tempoFit := m.tempoFit
  flags := c.flags

def fields : Record Move :=
  Move.mk <$> .required "measure" Decoder.u32 <*> .required "clip" Decoder.text
    <*> .required "key" MoveKey.decoder <*> .required "name" Decoder.text
    <*> .required "display_name" Decoder.text <*> .required "song_name" Decoder.text
    <*> .required "genre" Decoder.text <*> .required "era" Decoder.text
    <*> .required "links" (Decoder.list Decoder.text) <*> .required "tempo_fit" Decoder.double
    <*> .required "flags" Decoder.u32

def decoder : Decoder Move := fields.decoder "Move"

def toJson (m : Move) : Json :=
  .record [("measure", .ofWord m.measure), ("clip", .ofString m.clip), ("key", m.key.toJson),
    ("name", .ofString m.name), ("display_name", .ofString m.displayName),
    ("song_name", .ofString m.songName), ("genre", .ofString m.genre), ("era", .ofString m.era),
    ("links", .ofList .ofString m.links), ("tempo_fit", .ofDouble m.tempoFit),
    ("flags", .ofWord m.flags)]

end Move

/-! ## Libraries -/

/-- A source of moves. -/
structure Library where
  loadMove : MoveKey → Except BuildError MoveMetadata
  loadSequence : MoveKey → Except BuildError Pose.Sequence

namespace Library

/-- The file that describes a move. -/
def metadataFile : String := "move.json"

/-- The file that holds the poses of a move. -/
def sequenceFile : String := "sequence.json"

/-- There is no move with a key. -/
def noMove (path : String) (k : MoveKey) : BuildError :=
  .resource path s!"move `{k.text}` not found in library"

/-- The move with a key lacks a file. -/
def noFile (path : String) (k : MoveKey) (file : String) : BuildError :=
  .resource path s!"move `{k.text}` has no {file}"

/-- The library of two tables. -/
def ofTables (moves : Table MoveKey MoveMetadata) (sequences : Table MoveKey Pose.Sequence) :
    Library where
  loadMove k :=
    match moves.get? k with
    | some m => .ok m
    | none => .error (noMove (Path.join k.directory metadataFile) k)
  loadSequence k :=
    match sequences.get? k with
    | some s => .ok s
    | none => .error (noFile (Path.join k.directory sequenceFile) k sequenceFile)

/-- Reads bytes as a JSON text. -/
def decodeBytes {α : Type} (value : Decoder α) (bytes : ByteArray) : Except BuildError α :=
  match String.fromUTF8? bytes with
  | some text => (Json.decode value text).mapError .json
  | none => .error (.json .malformed)

/-- Reads a file of the move with a key. -/
def loadFile {α : Type} (t : FileTree) (root : String) (value : Decoder α) (file : String)
    (k : MoveKey) : Except BuildError α := do
  let directory := Path.join root k.directory
  if !t.isDirectory directory then throw (noMove directory k)
  let path := Path.join directory file
  if !t.isFile path then throw (noFile path k file)
  decodeBytes value (← (t.read path).mapError .file)

/-- The library below a directory. -/
def ofFolder (t : FileTree) (root : String) : Library where
  loadMove := loadFile t root MoveMetadata.decoder metadataFile
  loadSequence := loadFile t root Pose.Sequence.decoder sequenceFile

end Library

end SongBundle
