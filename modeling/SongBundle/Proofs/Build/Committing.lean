import SongBundle.Build.Plan
import SongBundle.Proofs.Battle.Nesting
import SongBundle.Proofs.Build.Importing
import SongBundle.Proofs.Build.Packaging
import SongBundle.Proofs.Files.Clear
import SongBundle.Proofs.PartyJump
import SongBundle.Proofs.Timing.Score

/-!
# Builds that fail

A build that has no plan changes nothing, and with a plan it can only fail at one of the changes.
`BuildRequest.build_eq_error` says what has changed by then, and what must have been in the way.

The plan of a build makes the directory of every file first (`BuildOutput.prepared_commit`), so that
nothing can be in the way but what `FileTree.Clear` names.  For the timing file this takes a song
without slashes in its name.
-/

set_option autoImplicit false

namespace SongBundle

open FileTree

variable {t t' : FileTree}

/-! ## Plans -/

/-- The directory of every entry is made before the entry is written. -/
theorem AssetStore.prepared_entries (hclosed : t.Closed) (root : String) (done : List FileAction)
    (entries : List (String × ByteArray)) :
    t.Prepared done (entries.flatMap fun e ↦
      [.makeDirectories (Path.parent (Path.join root e.1)), .write (Path.join root e.1) e.2]) := by
  induction entries generalizing done with
  | nil => trivial
  | cons e entries ih =>
    rw [List.flatMap_cons, prepared_append]
    refine ⟨⟨fun _ _ h ↦ (nomatch h), ?_, trivial⟩, ih _⟩
    rintro path bytes ⟨⟩ q hq
    refine (hclosed.hasDirectory_or_mem_passes_parent hq).imp id fun hpasses ↦ ?_
    exact ⟨_, List.mem_append_right _ (List.mem_singleton_self _), hpasses⟩

theorem AssetStore.prepared_save (hclosed : t.Closed) (s : AssetStore) (root : String) :
    t.Prepared [] (s.save root) := by
  rw [save, prepared_append]
  exact ⟨prepared_of_directories (by simp), prepared_entries hclosed root _ _⟩

namespace BuildOutput

theorem slash_notMem_midiName {song : SongMetadata} (h : '/' ∉ song.name.toList) :
    '/' ∉ (midiName song).toList := by
  rw [midiName]
  split
  · decide
  · change '/' ∉ (song.name ++ ".mid").toList
    rw [String.toList_append, List.mem_append, not_or]
    exact ⟨h, by decide⟩

/-- The directory of every file is made first, if what the timing file passes is made for the bundle
anyway. -/
theorem prepared_commit_of_passes (hclosed : t.Closed) (o : BuildOutput) {song : SongMetadata}
    {outputPath : String}
    (h : ∀ q ∈ walk (t.origin (Path.join outputPath (midiName song)))
        (Path.parts (Path.join outputPath (midiName song))).dropLast,
      q ∈ t.passes (Path.join outputPath bundleDirectory)) :
    t.Prepared [] (o.commit song outputPath).actions := by
  rw [commit, prepared_append]
  refine ⟨o.bundle.prepared_save hclosed _, ?_, trivial⟩
  rintro path bytes ⟨⟩ q hq
  exact .inr ⟨_, List.mem_cons_self, h q hq⟩

/-- The directory of every file is made first, if the timing file goes beside the bundle. -/
theorem prepared_commit (hclosed : t.Closed) (o : BuildOutput) {song : SongMetadata}
    (hname : '/' ∉ song.name.toList) (outputPath : String) :
    t.Prepared [] (o.commit song outputPath).actions := by
  -- the timing file is a neighbour of the directory of the bundle
  refine o.prepared_commit_of_passes hclosed fun q hq ↦ ?_
  obtain ⟨front, -, hfront⟩ := Path.exists_parts_join outputPath
  have hslash := slash_notMem_midiName hname
  obtain ⟨hmidi, hstart⟩ := hfront _ (Path.isAbsolute_eq_false_of_notMem hslash)
  obtain ⟨hbundle, hstart'⟩ := hfront bundleDirectory (by decide)
  rw [hmidi, Path.parts_eq_singleton hslash, List.dropLast_concat, origin, hstart, ← hstart'] at hq
  rw [passes, hbundle]
  exact mem_walk_of_isPrefix (List.prefix_append _ _) hq

/-- What must have been in the way of a commit that fails. -/
theorem not_clear_of_perform_eq_error (o : BuildOutput) {song : SongMetadata} {outputPath : String}
    {fault : FileFault} (hclosed : t.Closed)
    (h : t.perform (o.commit song outputPath).actions = (.error fault, t')) :
    '/' ∈ song.name.toList ∨ ¬t.Clear (o.commit song outputPath).actions := by
  refine or_iff_not_imp_left.2 fun hname hclear ↦ ?_
  obtain ⟨u, hok⟩ := hclear.perform hclosed (o.prepared_commit hclosed hname outputPath)
  rw [h] at hok
  cases hok

end BuildOutput

namespace BuildRequest

variable {c : BuildConfig} {r : BuildRequest}

/-- A plan commits what a compiled song makes of a template. -/
theorem plan_eq_ok_iff {p : BuildPlan} :
    r.plan c t = .ok p ↔
      ∃ template, c.template t = .ok template ∧ ∃ song, r.compile c t = .ok song ∧
        ∃ o, song.package template = .ok o ∧ o.commit r.song r.outputPath = p := by
  simp only [plan, Outcome.bind_eq_ok_iff, Outcome.pure_eq_ok_iff]

theorem exists_of_plan_eq_ok {p : BuildPlan} (h : r.plan c t = .ok p) :
    ∃ o : BuildOutput, p = o.commit r.song r.outputPath := by
  obtain ⟨_, _, _, _, o, _, rfl⟩ := plan_eq_ok_iff.1 h
  exact ⟨o, rfl⟩

/-- A build leaves a tree as it was, or carries out its plan. -/
theorem build_snd (c : BuildConfig) (r : BuildRequest) (t : FileTree) :
    (r.build c t).2 = t ∨ ∃ p, r.plan c t = .ok p ∧ (r.build c t).2 = (t.perform p.actions).2 := by
  rw [build]
  cases hplan : r.plan c t with
  | error e => exact .inl rfl
  | ok p =>
    refine .inr ⟨p, rfl, ?_⟩
    dsimp only
    split
    · rename_i hperform
      rw [hperform]
    · rename_i hperform
      rw [hperform]

theorem build_eq_ok_iff {report : BuildReport} :
    r.build c t = (.ok report, t') ↔
      ∃ p, r.plan c t = .ok p ∧ p.report = report ∧ t.perform p.actions = (.ok (), t') := by
  rw [build]
  cases r.plan c t with
  | error e => simp
  | ok p =>
    dsimp only
    split
    · rename_i hperform
      simp [hperform]
    · rename_i hperform
      simp [hperform]

/-! ## Failed builds -/

/-- **What a failed build has changed.**  Nothing if there is no plan.  Else a change has failed:
those before it stay, so nothing is removed, and directories and files are new only where the plan
has them.  In a tree where everything stands in a directory, a change only fails if the timing file
does not go beside the bundle or the way is not clear. -/
theorem build_eq_error {e : BuildError} (h : r.build c t = (.error e, t')) :
    r.plan c t = .error e ∧ t' = t ∨
      ∃ p fault, r.plan c t = .ok p ∧ e = .file fault ∧
        (∃ done action rest u, p.actions = done ++ action :: rest ∧
          t.perform done = (.ok (), u) ∧ u.perform [action] = (.error fault, t')) ∧
        t.Extends (t.DirectoryOf p.actions) (t.FileOf p.actions) t' ∧
        (t.Closed → '/' ∈ r.song.name.toList ∨ ¬t.Clear p.actions) := by
  rw [build] at h
  cases hplan : r.plan c t with
  | error e' =>
    rw [hplan] at h
    cases h
    exact .inl ⟨rfl, rfl⟩
  | ok p =>
    rw [hplan] at h
    dsimp only at h
    cases hperform : t.perform p.actions with
    | mk result u =>
      rw [hperform] at h
      cases result with
      | ok => cases h
      | error fault =>
        cases h
        have hextends := extends_perform t p.actions
        rw [hperform] at hextends
        refine .inr ⟨p, fault, rfl, rfl, exists_of_perform_eq_error hperform, hextends, ?_⟩
        intro hclosed
        obtain ⟨o, rfl⟩ := exists_of_plan_eq_ok hplan
        exact o.not_clear_of_perform_eq_error hclosed hperform

/-! ## A build that leaves something behind -/

/-- A request for a bundle with nothing in it. -/
def bare : BuildRequest where
  outputPath := "out"
  libraryRoot := "library"
  song := ⟨"gonow", "", "", 0, 0, 0, "", [], "", none⟩
  totalMeasures := 1
  compression := .none
  moves := .empty
  cameras := .empty
  practice := .empty
  tempo := []
  beginnerMoves := []
  drums := []
  songEvents := []
  partyJumps := []
  battle := [⟨0, .battleStart⟩]
  phraseRepeats := []
  visemes := []

/-- The same request for a song of another name. -/
def named (r : BuildRequest) (name : String) : BuildRequest :=
  { r with song := { r.song with name } }

/-- The same request for another output path. -/
def movedTo (r : BuildRequest) (outputPath : String) : BuildRequest := { r with outputPath }

/-- The same request with other cameras. -/
def filmed (r : BuildRequest) (cameras : Table Difficulty (List CameraEvent)) : BuildRequest :=
  { r with cameras }

theorem exists_compile_bare (library : Library) {c : BuildConfig} (hc : c.timing = .default)
    (name : String) (cameras : Table Difficulty (List CameraEvent))
    {tracks : Table Difficulty (Track String)}
    (hcameras : cameras.mapEntriesM densifyCameras = .ok tracks) :
    ∃ song expressions,
      CompiledSong.compile library c ((bare.named name).filmed cameras) = .ok song ∧
        song.practice = .empty ∧ song.sequences = .empty ∧
        song.anims = Tracks.anims ⟨.empty, tracks, expressions⟩ := by
  have htempo : ((bare.named name).filmed cameras).tempoChanges = [] :=
    (if_neg (by decide) : bare.tempoChanges = [])
  obtain ⟨battle, hbattle⟩ : ∃ steps, Battle.compile [⟨0, .battleStart⟩] 1 = .ok steps :=
    ⟨_, Battle.compile_eq_ok_iff.2 ⟨by decide, 0, [], Battle.nested_nil (by decide), .refl _, rfl⟩⟩
  have hjumps : PartyJump.compile [] 1 = .ok [] :=
    PartyJump.compile_eq_ok_iff.2 ⟨.refl _, by decide, by decide⟩
  obtain ⟨timing, htiming⟩ := Timing.Score.exists_compile_nil 4
  obtain ⟨expressions, hexpressions⟩ : ∃ expressions, densifyExpressions [] = .ok expressions :=
    ⟨_, rfl⟩
  have htracks : library.tracks ((bare.named name).filmed cameras) =
      .ok ⟨.empty, tracks, expressions⟩ := tracks_eq_ok_iff.2 ⟨rfl, hcameras, hexpressions⟩
  refine ⟨⟨.empty, battle, [], .empty, .empty, Tracks.anims ⟨.empty, tracks, expressions⟩, timing,
      CompiledSong.manifestOf _ (Tracks.levels ⟨.empty, tracks, expressions⟩)⟩, expressions,
    CompiledSong.compile_eq_ok_iff.2 ⟨_, .empty, htracks, rfl, hbattle, hjumps, rfl, ?_, rfl, rfl, rfl,
      rfl⟩,
    rfl, rfl, rfl⟩
  rw [htempo, hc]
  exact htiming

/-- Settings with the usual timing, and with a template that has the containers of every bundle and
nothing in them. -/
structure Blank (c : BuildConfig) (t : FileTree) : Prop where
  timing_eq : c.timing = .default
  template : ∃ s, c.template t = .ok s ∧ s.entries = .empty ∧
    s.containers = (AssetStore.withContainers AssetStore.requiredContainers).containers

theorem blank_default (t : FileTree) : Blank .default t := ⟨rfl, _, rfl, rfl, rfl⟩

/-- A song whose entries are called by normal names in required containers can be planned for any
output path, and its bundle has these entries. -/
theorem exists_plan_of_compile {song : CompiledSong} {names : List String} (hc : Blank c t)
    (hsong : r.compile c t = .ok song) (hnames : song.entries.map (·.1) = names)
    (hnormal : ∀ name ∈ names, EntryName.normalize? name = some name)
    (htakes : ∀ name ∈ names,
      (AssetStore.withContainers AssetStore.requiredContainers).takes name = true) :
    ∃ o : BuildOutput,
      (∀ outputPath, (r.movedTo outputPath).plan c t = .ok (o.commit r.song outputPath)) ∧
      (∀ container ∈ o.bundle.containers.toList, container ∈ AssetStore.requiredContainers) ∧
      ∀ entry, entry ∈ o.bundle.entries.keys ↔ entry ∈ names := by
  obtain ⟨template, htemplate, hentries, hcontainers⟩ := hc.template
  have hhas : template.hasContainer =
      (AssetStore.withContainers AssetStore.requiredContainers).hasContainer :=
    funext fun name ↦ congrArg (·.contains name) hcontainers
  have hrequired : ∀ name ∈ AssetStore.requiredContainers, template.hasContainer name = true := by
    rw [hhas]
    decide
  have htaken : ∀ e ∈ song.entries, template.takes e.1 = true := fun e he ↦ by
    rw [AssetStore.takes, hhas]
    exact htakes _ (hnames ▸ List.mem_map_of_mem he)
  obtain ⟨o, ho⟩ := CompiledSong.exists_package_iff.2 ⟨hrequired, htaken⟩
  have hwrite := CompiledSong.writeAll_of_package ho
  refine ⟨o, ?_, ?_, fun entry ↦ ?_⟩
  · exact fun outputPath ↦ plan_eq_ok_iff.2 ⟨template, htemplate, song, hsong, o, ho, rfl⟩
  · rw [CompiledSong.containers_of_writeAll hwrite, hcontainers]
    decide
  · rw [CompiledSong.mem_keys_of_writeAll hwrite, ← hnames, hentries]
    refine (or_iff_right List.not_mem_nil).trans ?_
    constructor
    · rintro ⟨e, he, hentry⟩
      have hname := List.mem_map_of_mem (f := Prod.fst) he
      rw [hnormal _ (hnames ▸ hname)] at hentry
      exact Option.some.inj hentry ▸ hname
    · intro hentry
      obtain ⟨e, he, rfl⟩ := List.mem_map.1 hentry
      exact ⟨e, he, hnormal _ (hnames ▸ hentry)⟩

/-- The entries of a bundle with nothing in it. -/
def bareEntries : List String :=
  ["moves/graph.json", "battle/steps.json", "partyjump/intervals.json", "song/manifest.json"]

/-- Whatever the song is called, `bare` can be planned, and the bundle is the same. -/
theorem exists_plan_bare (hc : Blank c t) (name : String) :
    ∃ o : BuildOutput,
      (∀ outputPath, ((bare.named name).movedTo outputPath).plan c t =
        .ok (o.commit (bare.named name).song outputPath)) ∧
      (∀ container ∈ o.bundle.containers.toList, container ∈ AssetStore.requiredContainers) ∧
      ∀ entry, entry ∈ o.bundle.entries.keys ↔ entry ∈ bareEntries := by
  obtain ⟨song, expressions, hsong, hpractice, hsequences, hanims⟩ :=
    exists_compile_bare (.ofFolder t "library") hc.timing_eq name .empty rfl
  refine exists_plan_of_compile hc hsong ?_ (by decide) (by decide)
  rw [CompiledSong.entries, hpractice, hsequences, hanims]
  rfl

/-- A tree in which the timing file of `bare` has a directory in its place. -/
def blocked : FileTree :=
  ((⟨.empty, []⟩ : FileTree).put ["out"] .directory).put ["out", "gonow.mid"] .directory

theorem node?_blocked (q : Place) :
    blocked.node? q =
      if q = ["out", "gonow.mid"] ∨ q = ["out"] ∨ q = [] then some .directory else none := by
  rw [blocked, node?_put (by simp), node?_put (by simp), node?, Table.get?_empty]
  split_ifs <;> simp_all

theorem closed_blocked : blocked.Closed := by
  refine ⟨hasDirectory_iff.2 (node?_blocked []), fun place name h ↦ ?_⟩
  rw [node?_blocked] at h
  rw [hasDirectory_iff, node?_blocked]
  split at h
  · rename_i hmem
    have hplace : place = (place ++ [name]).dropLast := List.dropLast_concat.symm
    rcases hmem with hmem | hmem | hmem
    · rw [hplace, hmem]
      exact if_pos (.inr (.inl rfl))
    · rw [hplace, hmem]
      exact if_pos (.inr (.inr rfl))
    · exact absurd hmem (by simp)
  · cases h

/-- The build makes the directory of the bundle before it finds that it cannot write the timing
file. -/
theorem exists_build_bare :
    ∃ fault t', bare.build .default blocked = (.error (.file fault), t') ∧
      t'.hasDirectory ["out", "bundle"] = true := by
  obtain ⟨o, ho⟩ : ∃ o : BuildOutput, bare.plan .default blocked = .ok (o.commit bare.song "out") :=
    (exists_plan_bare (blank_default blocked) "gonow").imp fun _ h ↦ h.1 "out"
  have hvalid : Path.Valid "out/bundle" := by decide
  have hfree : ∀ q ∈ blocked.passes "out/bundle", ∀ bytes,
      blocked.node? q ≠ some (.file bytes) := by
    intro q _ bytes
    rw [node?_blocked]
    split <;> simp
  obtain ⟨u, hrun, -, hdirs⟩ := exists_makeDirectories closed_blocked hvalid hfree
  have hmidi : .write "out/gonow.mid" ⟨o.midi.toArray⟩ ∈ (o.commit bare.song "out").actions :=
    List.mem_append_right _ (List.mem_singleton_self _)
  obtain ⟨rest, hactions⟩ : ∃ rest, (o.commit bare.song "out").actions =
      .makeDirectories "out/bundle" :: rest := ⟨_, rfl⟩
  -- evaluating the run takes too long, but it starts well, and it cannot end well
  cases hperform : blocked.perform (o.commit bare.song "out").actions with
  | mk result t' =>
    have hbundle : t'.hasDirectory ["out", "bundle"] = true := by
      have hextends := extends_perform u rest
      rw [hactions, perform_cons, act, hrun] at hperform
      dsimp only at hperform
      rw [hperform] at hextends
      exact hextends.hasDirectory (hdirs _ (by decide))
    cases result with
    | ok =>
      have hno := hasDirectory_placeOf_of_perform_eq_ok hperform hmidi
      rw [← Bool.not_eq_true, hasDirectory_iff, node?_blocked, if_pos (by decide)] at hno
      exact absurd rfl hno
    | error fault =>
      refine ⟨fault, t', ?_, hbundle⟩
      rw [build, ho]
      dsimp only
      rw [hperform]

theorem build_eq_error_bare :
    ∃ e t', bare.build .default blocked = (.error e, t') ∧
      (bare.plan .default blocked = .error e ∧ t' = blocked ∨
        ∃ p fault, bare.plan .default blocked = .ok p ∧ e = .file fault ∧
          (∃ done action rest u, p.actions = done ++ action :: rest ∧
            blocked.perform done = (.ok (), u) ∧ u.perform [action] = (.error fault, t')) ∧
          blocked.Extends (blocked.DirectoryOf p.actions) (blocked.FileOf p.actions) t' ∧
          (blocked.Closed → '/' ∈ bare.song.name.toList ∨ ¬blocked.Clear p.actions)) := by
  obtain ⟨fault, t', h, -⟩ := exists_build_bare
  exact ⟨_, t', h, build_eq_error h⟩

/-- A build that fails may have changed something. -/
theorem build_bare_ne_blocked :
    ∃ fault t', bare.build .default blocked = (.error (.file fault), t') ∧ t' ≠ blocked := by
  obtain ⟨fault, t', h, hdir⟩ := exists_build_bare
  refine ⟨fault, t', h, fun hsame ↦ ?_⟩
  rw [hsame, hasDirectory_iff, node?_blocked, if_neg (by decide)] at hdir
  cases hdir

end BuildRequest

end SongBundle
