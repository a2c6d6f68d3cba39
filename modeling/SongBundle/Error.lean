import SongBundle.Named

/-!
# What stops a build

A build stops at its first error.  A `validation` error points into the song, a `resource` error at
a file or directory that should exist; `BuildError.text` is the line shown to the author.  Arithmetic
that leaves the words of the machine is no error that a build reports: it ends the program.  It is
listed here as `overflow`, and `BuildError.checked` is how checked arithmetic comes to it.
-/

set_option autoImplicit false

namespace SongBundle

/-- The part of a build that found an error in the song. -/
inductive Stage where
  | choreography
  | camera
  | expression
  | moveGraph
  | battle
  | partyJump
  | practice
  | frameSequence
  | timing
  | build
deriving DecidableEq, Repr

/-- The name of a stage. -/
def Stage.text : Stage → String
  | .choreography => "choreography"
  | .camera => "camera"
  | .expression => "expression"
  | .moveGraph => "move graph"
  | .battle => "battle"
  | .partyJump => "party jump"
  | .practice => "practice"
  | .frameSequence => "frame sequence"
  | .timing => "timing"
  | .build => "build"

instance : Named Stage where
  what := "stage"
  all := [.choreography, .camera, .expression, .moveGraph, .battle, .partyJump, .practice,
    .frameSequence, .timing, .build]
  name := Stage.text

/-- A place in the song. -/
inductive Location where
  | measure (number : UInt32)
  | beat (number : UInt32)
  | index (number : UInt32)
deriving DecidableEq, Repr

/-- The decimal digits of a 32-bit number. -/
def wordText (n : UInt32) : String := Json.natText n.toNat

/-- The words for a place in the song. -/
def Location.text : Location → String
  | .measure n => "measure " ++ wordText n
  | .beat n => "beat " ++ wordText n
  | .index n => "index " ++ wordText n

/-- Why the file system refused an access. -/
inductive FileFault where
  /-- There is nothing at the path. -/
  | notFound
  /-- The path leads through something that is no directory. -/
  | notADirectory
  /-- A file is wanted where a directory is. -/
  | isADirectory
  /-- There is something at the path already. -/
  | exists
  /-- The path is not one that files can have. -/
  | badName
deriving DecidableEq, Repr

/-- The words for a refused access. -/
def FileFault.text : FileFault → String
  | .notFound => "no such file or directory"
  | .notADirectory => "not a directory"
  | .isADirectory => "is a directory"
  | .exists => "file exists"
  | .badName => "not a valid file name"

/-- What stops a build. -/
inductive BuildError where
  /-- The song is at fault. -/
  | validation (stage : Stage) (location : Option Location) (message : String)
  /-- A file or directory is missing. -/
  | resource (path : String) (message : String)
  /-- Anything that needs no more than a message. -/
  | plain (text : String)
  | file (fault : FileFault)
  | json (fault : Json.Fault)
  /-- The program ends because a number is no word of the machine. -/
  | overflow

namespace BuildError

/-- The result of checked arithmetic. -/
def checked {α : Type} : Option α → Except BuildError α
  | some a => .ok a
  | none => .error .overflow

/-- An error at a measure. -/
def atMeasure (stage : Stage) (measure : UInt32) (message : String) : BuildError :=
  .validation stage (some (.measure measure)) message

/-- The words that point at a location, if there is one. -/
def locationText : Option Location → String
  | some location => s!" (at {location.text})"
  | none => ""

/-- The line shown to the author. -/
def text : BuildError → String
  | .validation stage location message =>
    s!"{stage.text} validation error: {message}{locationText location}"
  | .resource path message => s!"missing resource `{path}`: {message}"
  | .plain text => text
  | .file fault => fault.text
  | .json fault => "serialization error: " ++ fault.message
  | .overflow => "arithmetic overflow"

/-- The stage that found an error in the song. -/
def stage? : BuildError → Option Stage
  | .validation stage _ _ => some stage
  | _ => none

/-- The place in the song an error points at. -/
def location? : BuildError → Option Location
  | .validation _ location _ => location
  | _ => none

end BuildError

end SongBundle
