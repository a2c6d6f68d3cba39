import SongBundle.Build.Plan
import SongBundle.Command.Arguments

/-!
# Running the command

`Call.actions` says what a call changes in a file tree, and `Command.run` carries it out.  The command
ends with status 0 if it did what it was asked, with 1 if that failed, and with 2 if its arguments make
no sense; a program that ends on an overflow has the status 101.
-/

set_option autoImplicit false

namespace SongBundle.Command

/-- Reads a file that holds a value as JSON. -/
def readFile {α : Type} (t : FileTree) (value : Json.Decoder α) (path : String) :
    Except BuildError α := do
  Library.decodeBytes value (← (t.read path).mapError .file)

namespace Call

/-- The settings that a call names. -/
def readConfig (c : Call) (t : FileTree) : Except BuildError BuildConfig :=
  match c.config with
  | some path => readFile t BuildConfig.decoder path
  | none => .ok .default

/-- The request of a build, sent to the directory that a call names. -/
def redirect (c : Call) (r : BuildRequest) : BuildRequest :=
  { r with outputPath := c.output.getD r.outputPath }

/-- The changes that a call makes. -/
def actions (c : Call) (t : FileTree) : Except BuildError (List FileAction) := do
  let config ← c.readConfig t
  let request ← readFile t BuildRequest.decoder c.request
  match c.verb with
  | .build => return (← (c.redirect request).plan config t).actions
  | .check =>
    let _ ← request.compile config t
    return []
  | .midi =>
    let song ← request.compile config t
    return [.write (c.output.getD "") ⟨song.timing.midi.toArray⟩]

end Call

/-- How the command ends. -/
inductive Outcome where
  | done
  | failed (error : BuildError)
  | misused

/-- The exit status of an outcome. -/
def Outcome.status : Outcome → UInt8
  | .done => 0
  | .failed .overflow => 101
  | .failed _ => 1
  | .misused => 2

/-- Runs the command on a file tree. -/
def run (arguments : List String) (t : FileTree) : Outcome × FileTree :=
  match Call.ofArguments arguments with
  | .error .answered => (.done, t)
  | .error .misused => (.misused, t)
  | .ok call =>
    match call.actions t with
    | .error e => (.failed e, t)
    | .ok actions =>
      match t.perform actions with
      | (.ok (), changed) => (.done, changed)
      | (.error fault, changed) => (.failed (.file fault), changed)

end SongBundle.Command
