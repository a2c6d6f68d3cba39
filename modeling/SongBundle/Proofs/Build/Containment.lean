import SongBundle.Proofs.Build.Committing
import SongBundle.Proofs.Files.Below

/-!
# Where builds put things

A bundle is written below its directory because all that it names is normal
(`AssetStore.Contained`): the containers and entries of a template are called after what stands in
the tree it was loaded from, and every other name is checked when its entry is written.  Nothing
checks the name of a song, which the timing file is called after.

`BuildRequest.build_stays_inside` says where a build may put directories and files, and
`BuildRequest.exists_build_outside` is a build that puts its timing file beside the output directory.
-/

set_option autoImplicit false

namespace SongBundle

open FileTree EntryName

variable {t : FileTree} {q : Place} {path : String} {bytes : ByteArray}

/-! ## Stores -/

namespace AssetStore

variable {s : AssetStore} {root : String}

/-- All that a store names lies below the directory that the store is written to. -/
structure Contained (s : AssetStore) : Prop where
  containers : ∀ name ∈ s.containers.toList, isNormal name = true
  entries : ∀ name ∈ s.entries.keys, isNormal name = true

theorem contained_withContainers : (withContainers requiredContainers).Contained :=
  ⟨by decide, by decide⟩

theorem Contained.addNode (h : s.Contained) {names : Place} {node : FileNode}
    (hnames : isNormal (Path.ofParts names) = true) : (s.addNode names node).Contained := by
  cases node with
  | directory =>
    refine ⟨fun name hname ↦ ?_, h.entries⟩
    rcases Table.mem_keys_insert.1 hname with hname | rfl
    · exact h.containers name hname
    · exact hnames
  | file bytes =>
    refine ⟨h.containers, fun name hname ↦ ?_⟩
    rcases Table.mem_keys_insert.1 hname with hname | rfl
    · exact h.entries name hname
    · exact hnames

theorem contained_of_load (ht : t.Named) (h : load t root = .ok s) : s.Contained := by
  simp only [load, Outcome.guard_bind_eq_ok_iff, Outcome.bind_eq_ok_iff,
    Outcome.pure_eq_ok_iff] at h
  obtain ⟨-, place, -, rfl⟩ := h
  refine List.foldlRecOn (t.below place) _ ?_ fun s hs e he ↦ ?_
  · exact ⟨fun _ h ↦ absurd h List.not_mem_nil, fun _ h ↦ absurd h List.not_mem_nil⟩
  · exact hs.addNode (ht.isNormal_ofParts he)

theorem makeDirectories_mem_save :
    .makeDirectories path ∈ s.save root ↔
      path = root ∨ (∃ name ∈ s.containers.toList, path = Path.join root name) ∨
        ∃ name ∈ s.entries.keys, path = Path.parent (Path.join root name) := by
  simp [save, Table.keys, Table.toList, eq_comm]

theorem write_mem_save :
    .write path bytes ∈ s.save root ↔
      ∃ name, (name, bytes) ∈ s.entries.toList ∧ path = Path.join root name := by
  simp [save]

/-- The directories of a contained store are passed on the way to where it is written, or lie
there. -/
theorem Contained.directoryOf_save (h : s.Contained) (hq : t.DirectoryOf (s.save root) q) :
    q ∈ t.passes root ∨ t.placeOf root <+: q := by
  have hjoin {name : String} (hname : isNormal name = true)
      (hpasses : q ∈ t.passes (Path.join root name)) :
      q ∈ t.passes root ∨ t.placeOf root <+: q :=
    ((mem_passes_join hname).1 hpasses).imp id fun ⟨front, _, hfront⟩ ↦
      hfront ▸ List.prefix_append _ _
  obtain ⟨path, hpath, hpasses⟩ := hq
  rcases makeDirectories_mem_save.1 hpath with rfl | ⟨name, hname, rfl⟩ | ⟨name, hname, rfl⟩
  · exact .inl hpasses
  · exact hjoin (h.containers name hname) hpasses
  · exact hjoin (h.entries name hname) (mem_passes_of_mem_passes_parent hpasses)

theorem Contained.fileOf_save (h : s.Contained) (hq : t.FileOf (s.save root) q bytes) :
    t.placeOf root <+: q ∧ q ≠ t.placeOf root := by
  obtain ⟨path, hpath, rfl⟩ := hq
  obtain ⟨name, hname, rfl⟩ := write_mem_save.1 hpath
  rw [placeOf_join t root (h.entries name (List.mem_map_of_mem hname))]
  refine ⟨List.prefix_append _ _, fun hsame ↦ ?_⟩
  exact Path.parts_ne_nil name (List.append_right_eq_self.1 hsame)

end AssetStore

/-- A contained template makes a contained bundle. -/
theorem CompiledSong.contained_of_package {song : CompiledSong} {template : AssetStore}
    {o : BuildOutput} (htemplate : template.Contained) (h : song.package template = .ok o) :
    o.bundle.Contained := by
  have hwrite := writeAll_of_package h
  refine ⟨?_, fun name hname ↦ ?_⟩
  · rw [containers_of_writeAll hwrite]
    exact htemplate.containers
  · rcases (mem_keys_of_writeAll hwrite).1 hname with hname | ⟨e, -, hnormal⟩
    · exact htemplate.entries name hname
    · exact isNormal_of_normalize? hnormal

theorem BuildConfig.contained_of_template {c : BuildConfig} {template : AssetStore}
    (ht : t.Named) (h : c.template t = .ok template) : template.Contained := by
  rw [BuildConfig.template] at h
  split at h
  · exact AssetStore.contained_of_load ht h
  · exact Except.ok.inj h ▸ AssetStore.contained_withContainers

namespace BuildOutput

variable {o : BuildOutput} {song : SongMetadata} {outputPath : String}

theorem midiName_ne {other : String} (song : SongMetadata)
    (hother : other.toList.getLast? ≠ some 'd') : midiName song ≠ other := by
  rintro rfl
  rw [midiName] at hother
  split at hother
  · exact hother (by decide)
  · change (song.name ++ ".mid").toList.getLast? ≠ some 'd' at hother
    simp at hother

theorem isProper_midiName (song : SongMetadata) : isProper (midiName song) = true :=
  isProper_iff.2 ⟨midiName_ne song (by decide), midiName_ne song (by decide),
    midiName_ne song (by decide)⟩

theorem isNormal_midiName (h : '/' ∉ song.name.toList) : isNormal (midiName song) = true :=
  isNormal_of_notMem (isProper_midiName song) (slash_notMem_midiName h)

theorem isNormal_bundleDirectory : isNormal bundleDirectory = true := by decide

theorem makeDirectories_mem_commit :
    .makeDirectories path ∈ (o.commit song outputPath).actions ↔
      .makeDirectories path ∈ o.bundle.save (Path.join outputPath bundleDirectory) := by
  simp [commit]

theorem write_mem_commit :
    .write path bytes ∈ (o.commit song outputPath).actions ↔
      .write path bytes ∈ o.bundle.save (Path.join outputPath bundleDirectory) ∨
        path = Path.join outputPath (midiName song) ∧ bytes = ⟨o.midi.toArray⟩ := by
  simp [commit]

end BuildOutput

namespace BuildRequest

variable {c : BuildConfig} {r : BuildRequest}

/-! ## Builds -/

/-- Where a request puts its bundle. -/
def bundlePlace (r : BuildRequest) (t : FileTree) : Place :=
  t.placeOf r.outputPath ++ [BuildOutput.bundleDirectory]

/-- Where a request puts its timing file. -/
def timingPlace (r : BuildRequest) (t : FileTree) : Place :=
  t.placeOf (Path.join r.outputPath (BuildOutput.midiName r.song))

/-- Where a request may make directories: on the way of its output path, and in its bundle. -/
def MayMake (r : BuildRequest) (t : FileTree) (q : Place) : Prop :=
  q ∈ t.passes r.outputPath ∨ r.bundlePlace t <+: q

/-- Where a request may write files: in its bundle, and its timing file. -/
def MayWrite (r : BuildRequest) (t : FileTree) (q : Place) : Prop :=
  r.bundlePlace t <+: q ∧ q ≠ r.bundlePlace t ∨ q = r.timingPlace t

theorem placeOf_bundle (r : BuildRequest) (t : FileTree) :
    t.placeOf (Path.join r.outputPath BuildOutput.bundleDirectory) = r.bundlePlace t := by
  rw [placeOf_join t r.outputPath BuildOutput.isNormal_bundleDirectory]
  rfl

/-- The name of a song without slashes leads into the output path. -/
theorem timingPlace_eq (h : '/' ∉ r.song.name.toList) :
    r.timingPlace t = t.placeOf r.outputPath ++ [BuildOutput.midiName r.song] := by
  rw [timingPlace, placeOf_join t r.outputPath (BuildOutput.isNormal_midiName h),
    Path.parts_eq_singleton (BuildOutput.slash_notMem_midiName h)]

/-- The directory of the bundle is one step from the output path. -/
theorem mem_passes_bundle
    (h : q ∈ t.passes (Path.join r.outputPath BuildOutput.bundleDirectory)) :
    q ∈ t.passes r.outputPath ∨ q = r.bundlePlace t := by
  rcases (mem_passes_join BuildOutput.isNormal_bundleDirectory).1 h with h | ⟨front, hfront, rfl⟩
  · exact .inl h
  · have hparts : Path.parts BuildOutput.bundleDirectory = [BuildOutput.bundleDirectory] := by
      decide
    obtain rfl | rfl : front = [] ∨ front = [BuildOutput.bundleDirectory] := by
      simpa [hparts, List.prefix_cons_iff] using hfront
    · rw [List.append_nil]
      exact .inl (t.placeOf_mem_passes r.outputPath)
    · exact .inr rfl

theorem mayMake_of_mem_passes
    (h : q ∈ t.passes (Path.join r.outputPath BuildOutput.bundleDirectory)) : r.MayMake t q := by
  rcases mem_passes_bundle h with h | rfl
  · exact .inl h
  · exact .inr (List.prefix_refl _)

theorem contained_of_plan {p : BuildPlan} (ht : t.Named) (h : r.plan c t = .ok p) :
    ∃ o : BuildOutput, o.bundle.Contained ∧ p = o.commit r.song r.outputPath := by
  obtain ⟨template, htemplate, song, -, o, hpackage, rfl⟩ := plan_eq_ok_iff.1 h
  exact ⟨o, song.contained_of_package (c.contained_of_template ht htemplate) hpackage, rfl⟩

theorem mayMake_of_plan {p : BuildPlan} (ht : t.Named) (h : r.plan c t = .ok p)
    (hq : t.DirectoryOf p.actions q) : r.MayMake t q := by
  obtain ⟨o, hcontained, rfl⟩ := contained_of_plan ht h
  obtain ⟨path, hpath, hpasses⟩ := hq
  have hq := hcontained.directoryOf_save
    ⟨path, BuildOutput.makeDirectories_mem_commit.1 hpath, hpasses⟩
  rw [placeOf_bundle] at hq
  exact hq.elim mayMake_of_mem_passes .inr

theorem mayWrite_of_plan {p : BuildPlan} (ht : t.Named) (h : r.plan c t = .ok p)
    (hq : t.FileOf p.actions q bytes) : r.MayWrite t q := by
  obtain ⟨o, hcontained, rfl⟩ := contained_of_plan ht h
  obtain ⟨path, hpath, hplace⟩ := hq
  rcases BuildOutput.write_mem_commit.1 hpath with hpath | ⟨rfl, -⟩
  · have hbelow := hcontained.fileOf_save ⟨path, hpath, hplace⟩
    rw [placeOf_bundle] at hbelow
    exact .inl hbelow
  · exact .inr hplace

theorem extends_build (ht : t.Named) :
    t.Extends (r.MayMake t) (fun q _ ↦ r.MayWrite t q) (r.build c t).2 := by
  rcases build_snd c r t with hsame | ⟨p, hplan, hperform⟩
  · rw [hsame]
    exact .refl t
  · rw [hperform]
    exact (extends_perform t p.actions).imp (fun q ↦ mayMake_of_plan ht hplan)
      fun q bytes ↦ mayWrite_of_plan ht hplan

theorem exists_timing_file {report : BuildReport} {t' : FileTree}
    (h : r.build c t = (.ok report, t')) :
    ∃ bytes, t'.node? (r.timingPlace t) = some (.file bytes) := by
  obtain ⟨p, hplan, -, hperform⟩ := build_eq_ok_iff.1 h
  obtain ⟨o, rfl⟩ := exists_of_plan_eq_ok hplan
  exact exists_file_of_perform_eq_ok hperform (BuildOutput.write_mem_commit.2 (.inr ⟨rfl, rfl⟩))

/-! ## Builds of hardly anything -/

/-- A tree with nothing in it. -/
def vacant : FileTree := ⟨.empty, []⟩

theorem node?_vacant (q : Place) :
    vacant.node? q = if q = [] then some .directory else none := rfl

theorem closed_vacant : vacant.Closed :=
  ⟨rfl, fun place name h ↦ by simp [node?_vacant] at h⟩

/-- The entries of a bundle with nothing in it but the cameras of one level. -/
def filmedEntries : List String := "anims/easy.json" :: bareEntries

/-- The directories that such a bundle needs. -/
def bareDirectories (root : String) : List String :=
  root :: AssetStore.requiredContainers.map (Path.join root)
    ++ filmedEntries.map fun name ↦ Path.parent (Path.join root name)

theorem mem_bareDirectories {o : BuildOutput} {song : SongMetadata} {outputPath : String}
    (hcontainers : ∀ name ∈ o.bundle.containers.toList, name ∈ AssetStore.requiredContainers)
    (hentries : ∀ name ∈ o.bundle.entries.keys, name ∈ filmedEntries)
    (h : .makeDirectories path ∈ (o.commit song outputPath).actions) :
    path ∈ bareDirectories (Path.join outputPath BuildOutput.bundleDirectory) := by
  rcases AssetStore.makeDirectories_mem_save.1 (BuildOutput.makeDirectories_mem_commit.1 h)
    with rfl | ⟨name, hname, rfl⟩ | ⟨name, hname, rfl⟩
  · exact List.mem_cons_self
  · exact List.mem_append_left _ (.tail _ (List.mem_map_of_mem (hcontainers name hname)))
  · exact List.mem_append_right _ (List.mem_map.2 ⟨name, hentries name hname, rfl⟩)

/-- The files that are written with such a bundle. -/
def bareFiles (outputPath : String) (song : SongMetadata) : List String :=
  Path.join outputPath (BuildOutput.midiName song) ::
    filmedEntries.map (Path.join (Path.join outputPath BuildOutput.bundleDirectory))

theorem mem_bareFiles {o : BuildOutput} {song : SongMetadata} {outputPath : String}
    (hentries : ∀ name ∈ o.bundle.entries.keys, name ∈ filmedEntries)
    (h : .write path bytes ∈ (o.commit song outputPath).actions) :
    path ∈ bareFiles outputPath song := by
  rcases BuildOutput.write_mem_commit.1 h with h | ⟨rfl, -⟩
  · obtain ⟨name, hname, rfl⟩ := AssetStore.write_mem_save.1 h
    exact .tail _ (List.mem_map_of_mem (hentries name (List.mem_map_of_mem hname)))
  · exact List.mem_cons_self

/-- Places above the entries of a bundle, those of timing files aside. -/
def Shallow (q : Place) : Prop := q.length < 4 ∧ "gonow.mid" ∉ q

instance : DecidablePred Shallow := fun q ↦
  inferInstanceAs (Decidable (q.length < 4 ∧ "gonow.mid" ∉ q))

theorem shallow_of_mem_bareDirectories :
    ∀ path ∈ bareDirectories "out/bundle", ∀ q ∈ vacant.passes path, Shallow q := by
  decide

theorem valid_of_mem_bareDirectories : ∀ path ∈ bareDirectories "out/bundle", Path.Valid path := by
  decide

theorem divided_vacant : vacant.Divided Shallow := by
  refine ⟨fun q hdir ↦ ?_, fun q bytes hfile ↦ ?_⟩
  · rw [node?_vacant] at hdir
    split at hdir
    · rename_i hq
      rw [hq]
      decide
    · cases hdir
  · rw [node?_vacant] at hfile
    split at hfile <;> cases hfile

/-- Nothing is in the way of a bundle with hardly anything in it, where others of its kind were
built at most. -/
theorem exists_build_of_divided {o : BuildOutput} (hclosed : t.Closed)
    (hdivided : t.Divided Shallow) (hhome : t.home = [])
    (hplan : r.plan c t = .ok (o.commit r.song "out"))
    (hcontainers : ∀ name ∈ o.bundle.containers.toList, name ∈ AssetStore.requiredContainers)
    (hentries : ∀ name ∈ o.bundle.entries.keys, name ∈ filmedEntries)
    (hvalid : ∀ path ∈ bareFiles "out" r.song, Path.Valid path)
    (hfiles : ∀ path ∈ bareFiles "out" r.song, ¬Shallow (vacant.placeOf path))
    (hway : ∀ q ∈ walk (vacant.origin (Path.join "out" (BuildOutput.midiName r.song)))
        (Path.parts (Path.join "out" (BuildOutput.midiName r.song))).dropLast,
      q ∈ vacant.passes "out/bundle") :
    ∃ report t', r.build c t = (.ok report, t') ∧
      t.perform (o.commit r.song "out").actions = (.ok (), t') ∧ t'.Divided Shallow := by
  have hvacant : t.home = vacant.home := hhome
  have hdirectoryOf (q : Place) (hq : t.DirectoryOf (o.commit r.song "out").actions q) :
      Shallow q := by
    obtain ⟨path, hpath, hq⟩ := hq
    exact shallow_of_mem_bareDirectories path (mem_bareDirectories hcontainers hentries hpath) q
      (passes_congr hvacant path ▸ hq)
  have hfileOf (q : Place) (bytes : ByteArray)
      (hq : t.FileOf (o.commit r.song "out").actions q bytes) : ¬Shallow q := by
    obtain ⟨path, hpath, rfl⟩ := hq
    rw [placeOf_congr hvacant]
    exact hfiles path (mem_bareFiles hentries hpath)
  have hclear : t.Clear (o.commit r.song "out").actions := by
    refine hdivided.clear (fun action haction ↦ ?_) hdirectoryOf hfileOf
    cases action with
    | makeDirectories path =>
      exact valid_of_mem_bareDirectories path (mem_bareDirectories hcontainers hentries haction)
    | write path bytes => exact hvalid path (mem_bareFiles hentries haction)
  rw [origin, ← hvacant, ← origin] at hway
  obtain ⟨t', hperform⟩ := hclear.perform hclosed
    (o.prepared_commit_of_passes hclosed fun q hq ↦ passes_congr hvacant _ ▸ hway q hq)
  have hextends := extends_perform t (o.commit r.song "out").actions
  rw [hperform] at hextends
  exact ⟨_, t', build_eq_ok_iff.2 ⟨_, hplan, rfl, hperform⟩, hperform,
    hextends.divided hdivided hdirectoryOf hfileOf⟩

/-- Nothing is in the way of `bare` in a tree with nothing in it, if its timing file has a name that
leads nowhere near the bundle. -/
theorem exists_build_vacant (name : String)
    (hvalid : ∀ path ∈ bareFiles "out" (bare.named name).song, Path.Valid path)
    (hfiles : ∀ path ∈ bareFiles "out" (bare.named name).song, ¬Shallow (vacant.placeOf path))
    (hway : ∀ q ∈ walk (vacant.origin (Path.join "out" (BuildOutput.midiName (bare.named name).song)))
        (Path.parts (Path.join "out" (BuildOutput.midiName (bare.named name).song))).dropLast,
      q ∈ vacant.passes "out/bundle") :
    ∃ report t', (bare.named name).build .default vacant = (.ok report, t') := by
  obtain ⟨o, ho, hcontainers, hentries⟩ := exists_plan_bare (blank_default vacant) name
  obtain ⟨report, t', h, -⟩ := exists_build_of_divided closed_vacant divided_vacant rfl (ho "out")
    hcontainers (fun name hname ↦ .tail _ ((hentries name).1 hname)) hvalid hfiles hway
  exact ⟨report, t', h⟩

/-! ## What a build touches -/

/-- **A build stays inside its output directory, if the name of its song does.**  In a tree with
proper names, whatever those in the request are, its directories are passed on the way to the output
directory or lie in the bundle, and its files lie in the bundle, all but the timing file.  That one
is written where the name of the song leads, and a name without slashes leads into the output
directory. -/
theorem build_stays_inside (ht : t.Named) :
    (∀ p, r.plan c t = .ok p →
        (∀ q, t.DirectoryOf p.actions q → r.MayMake t q) ∧
          ∀ q bytes, t.FileOf p.actions q bytes → r.MayWrite t q) ∧
      t.Extends (r.MayMake t) (fun q _ ↦ r.MayWrite t q) (r.build c t).2 ∧
      (∀ report t', r.build c t = (.ok report, t') →
        ∃ bytes, t'.node? (r.timingPlace t) = some (.file bytes)) ∧
      ('/' ∉ r.song.name.toList →
        r.timingPlace t = t.placeOf r.outputPath ++ [BuildOutput.midiName r.song]) := by
  exact ⟨fun p hp ↦ ⟨fun q ↦ mayMake_of_plan ht hp, fun q bytes ↦ mayWrite_of_plan ht hp⟩,
    extends_build ht, fun report t' ↦ exists_timing_file, timingPlace_eq⟩

theorem named_blocked : blocked.Named := by
  intro place node h
  rw [node?_blocked] at h
  split at h
  · rename_i hplace
    rcases hplace with rfl | rfl | rfl <;> decide
  · cases h

theorem named_vacant : vacant.Named := by
  intro place node h
  rw [node?_vacant] at h
  split at h
  · rename_i hplace
    rw [hplace]
    decide
  · cases h

/-- A build that fails halfway, and one that puts its timing file beside its bundle. -/
theorem build_stays_inside_bare :
    (blocked.Named ∧ ∃ fault t', bare.build .default blocked = (.error (.file fault), t') ∧
      blocked.Extends (bare.MayMake blocked) (fun q _ ↦ bare.MayWrite blocked q) t') ∧
    vacant.Named ∧ ∃ p report t' bytes, bare.plan .default vacant = .ok p ∧
      (∀ q, vacant.DirectoryOf p.actions q → bare.MayMake vacant q) ∧
      (∀ q bytes, vacant.FileOf p.actions q bytes → bare.MayWrite vacant q) ∧
      bare.build .default vacant = (.ok report, t') ∧
      vacant.Extends (bare.MayMake vacant) (fun q _ ↦ bare.MayWrite vacant q) t' ∧
      t'.node? ["out", "gonow.mid"] = some (.file bytes) := by
  constructor
  · obtain ⟨fault, t', h, -⟩ := exists_build_bare
    obtain ⟨-, hextends, -⟩ := build_stays_inside (c := .default) (r := bare) named_blocked
    rw [h] at hextends
    exact ⟨named_blocked, fault, t', h, hextends⟩
  · obtain ⟨report, t', h⟩ : ∃ report t', bare.build .default vacant = (.ok report, t') :=
      exists_build_vacant "gonow" (by decide) (by decide) (by decide)
    obtain ⟨hplan, hextends, htiming, hplace⟩ :=
      build_stays_inside (c := .default) (r := bare) named_vacant
    obtain ⟨p, hp, -⟩ := build_eq_ok_iff.1 h
    obtain ⟨bytes, hbytes⟩ := htiming report t' h
    have hout : vacant.placeOf bare.outputPath ++ [BuildOutput.midiName bare.song] =
        ["out", "gonow.mid"] := by decide
    rw [hplace (by decide), hout] at hbytes
    rw [h] at hextends
    exact ⟨named_vacant, p, report, t', bytes, hp, (hplan p hp).1, (hplan p hp).2, h, hextends,
      hbytes⟩

/-- A song whose name leads up gets its timing file where its output directory is, and not in it. -/
theorem exists_build_outside :
    ∃ report t' bytes, (bare.named "../gonow").build .default vacant = (.ok report, t') ∧
      vacant.node? ["gonow.mid"] = none ∧ t'.node? ["gonow.mid"] = some (.file bytes) ∧
        ["gonow.mid"] ∉ vacant.passes bare.outputPath ∧
        ¬bare.bundlePlace vacant <+: ["gonow.mid"] ∧
        ∀ name, ["gonow.mid"] ≠ vacant.placeOf bare.outputPath ++ [name] := by
  obtain ⟨report, t', h⟩ := exists_build_vacant "../gonow" (by decide) (by decide)
    (by decide)
  obtain ⟨bytes, hfile⟩ := exists_timing_file h
  have hplace : (bare.named "../gonow").timingPlace vacant = ["gonow.mid"] := by decide
  have hout : vacant.placeOf bare.outputPath = ["out"] := by decide
  rw [hplace] at hfile
  refine ⟨report, t', bytes, h, rfl, hfile, by decide, by decide, fun name ↦ ?_⟩
  rw [hout]
  simp

end BuildRequest

end SongBundle
