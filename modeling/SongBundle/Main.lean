import SongBundle.Command.Run
import SongBundle.Files.Disk

/-!
# The command

Copies what a call reads into a file tree, asks `Call.actions` for the changes, and carries them out on
the disk.
-/

set_option autoImplicit false

namespace SongBundle.Command

/-- What is shown to those who ask for help. -/
def usage : String :=
  "Compile a dance song description into a game bundle\n\n"
    ++ "  build [--config FILE] [--output DIR] REQUEST\n"
    ++ "  check [--config FILE] REQUEST\n"
    ++ "  midi [--config FILE] REQUEST OUTPUT"

/-- Copies the directories that a call reads. -/
def mountDirectories (call : Call) (t : FileTree) : IO FileTree := do
  let t ←
    match call.readConfig t with
    | .ok config => config.paths.templateDirectory.toList.foldlM FileTree.mount t
    | .error _ => pure t
  match readFile t BuildRequest.decoder call.request with
  | .ok request => t.mount request.libraryRoot
  | .error _ => return t

/-- Copies everything that a call reads. -/
def mountAll (call : Call) : IO FileTree := do
  let t ← FileTree.ofWorkingDirectory
  let t ← (call.config.toList ++ [call.request]).foldlM FileTree.mount t
  mountDirectories call t

/-- Runs a call on the disk. -/
def runOnDisk (call : Call) : IO Outcome := do
  match call.actions (← mountAll call) with
  | .error e => return .failed e
  | .ok actions =>
    try
      actions.forM FileAction.apply
      return .done
    catch e => return .failed (.plain e.toString)

/-- Says how the command ended. -/
def conclude (outcome : Outcome) : IO UInt32 := do
  match outcome with
  | .failed e => IO.eprintln s!"error: {e.text}"
  | .misused => IO.eprintln usage
  | .done => pure ()
  return outcome.status.toUInt32

end SongBundle.Command

open SongBundle.Command in
/-- Runs the command with the given arguments. -/
def main (arguments : List String) : IO UInt32 := do
  match Call.ofArguments arguments with
  | .ok call => conclude (← runOnDisk call)
  | .error .misused => conclude .misused
  | .error .answered =>
    IO.println usage
    return 0
