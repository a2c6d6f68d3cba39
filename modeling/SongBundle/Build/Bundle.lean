import SongBundle.Assets.Store
import SongBundle.Build.CompiledSong
import SongBundle.Timing.MidiFile

/-!
# Bundles

`CompiledSong.package` enters a compiled song into a template, one JSON entry for each of its parts,
and gives the bundle together with the timing file that goes beside it.
-/

set_option autoImplicit false

namespace SongBundle

/-- A bundle and its timing file. -/
structure BuildOutput where
  bundle : AssetStore
  midi : List UInt8

namespace CompiledSong

/-- A number with zeros before it, up to three digits. -/
def paddedIndex (index : Nat) : String :=
  let digits := Nat.toDigits 10 index
  String.ofList (List.replicate (3 - digits.length) '0' ++ digits)

/-- The name of the entry that holds something of a level. -/
def levelEntry (container : String) (level : Difficulty) : String :=
  s!"{container}/{level.text}.json"

/-- The name of the entry that holds a sequence of a level. -/
def sequenceEntry (level : Difficulty) (index : Nat) (q : Pose.Sequence) : String :=
  s!"sequences/{level.text}/{paddedIndex index}_{q.name}.json"

/-- The entries of the sequences of a level. -/
def sequenceEntries (level : Difficulty) (sequences : List Pose.Sequence) :
    List (String × Json) :=
  sequences.zipIdx.map fun e ↦ (sequenceEntry level e.2 e.1, e.1.toJson)

/-- The entries of a song, in the order in which they are written. -/
def entries (s : CompiledSong) : List (String × Json) :=
  [("moves/graph.json", s.graph.toJson),
    ("battle/steps.json", .ofList Battle.Step.toJson s.battle),
    ("partyjump/intervals.json", .ofList PartyJump.Interval.toJson s.partyJumps)]
    ++ s.practice.toList.map (fun e ↦ (levelEntry "practice" e.1, e.2.toJson))
    ++ s.sequences.toList.flatMap (fun e ↦ sequenceEntries e.1 e.2)
    ++ s.anims.toList.map (fun e ↦ (levelEntry "anims" e.1, e.2.toJson))
    ++ [("song/manifest.json", s.manifest.toJson)]

/-- Writes entries one after the other. -/
def writeAll (store : AssetStore) (entries : List (String × Json)) :
    Except EntryFault AssetStore :=
  entries.foldlM (fun store e ↦ store.writeJson e.1 e.2) store

/-- Enters a song into a template that has all required containers. -/
def package (s : CompiledSong) (template : AssetStore) : Except BuildError BuildOutput := do
  template.require AssetStore.requiredContainers
  let bundle ← (writeAll template s.entries).mapError EntryFault.report
  return ⟨bundle, s.timing.midi⟩

end CompiledSong

end SongBundle
