import SongBundle.Build.Bundle

/-!
# Builds

A build reads a file tree and then changes it.  `BuildRequest.plan` does all the reading and
compiling, and says which changes are due; nothing changes before that has succeeded.
`BuildRequest.build` carries out the changes.
-/

set_option autoImplicit false

namespace SongBundle

/-- What a build made. -/
structure BuildReport where
  /-- The directory of the bundle. -/
  bundleDirectory : String
  /-- The timing file. -/
  midiPath : String
  /-- The number of entries of the bundle. -/
  entries : Nat
deriving DecidableEq, Repr

/-- The changes that a build makes, and what is reported afterwards. -/
structure BuildPlan where
  actions : List FileAction
  report : BuildReport

namespace BuildOutput

/-- The directory of a bundle, seen from where a build puts it. -/
def bundleDirectory : String := "bundle"

/-- The name of the timing file of a song. -/
def midiName (song : SongMetadata) : String :=
  if song.name = "" then "song.mid" else s!"{song.name}.mid"

/-- The changes that put a bundle into a directory, and its timing file beside it. -/
def commit (o : BuildOutput) (song : SongMetadata) (outputPath : String) : BuildPlan :=
  let bundle := Path.join outputPath bundleDirectory
  let midi := Path.join outputPath (midiName song)
  { actions := o.bundle.save bundle ++ [.write midi ⟨o.midi.toArray⟩]
    report := ⟨bundle, midi, o.bundle.size⟩ }

end BuildOutput

/-- The template that the settings name, or else one with the required containers and nothing in
them. -/
def BuildConfig.template (c : BuildConfig) (t : FileTree) : Except BuildError AssetStore :=
  match c.paths.templateDirectory with
  | some directory => AssetStore.load t directory
  | none => .ok (.withContainers AssetStore.requiredContainers)

namespace BuildRequest

/-- Compiles a request with the library it names. -/
def compile (r : BuildRequest) (c : BuildConfig) (t : FileTree) :
    Except BuildError CompiledSong :=
  CompiledSong.compile (.ofFolder t r.libraryRoot) c r

/-- Says what the build of a request changes. -/
def plan (r : BuildRequest) (c : BuildConfig) (t : FileTree) : Except BuildError BuildPlan := do
  let template ← c.template t
  let song ← r.compile c t
  let output ← song.package template
  return output.commit r.song r.outputPath

/-- Builds a request.  A change that fails leaves those before it in place. -/
def build (r : BuildRequest) (c : BuildConfig) (t : FileTree) :
    Except BuildError BuildReport × FileTree :=
  match r.plan c t with
  | .error e => (.error e, t)
  | .ok p =>
    match t.perform p.actions with
    | (.error fault, changed) => (.error (.file fault), changed)
    | (.ok (), changed) => (.ok p.report, changed)

end BuildRequest

end SongBundle
