import SongBundle.Proofs.Assets.Saving
import SongBundle.Proofs.Files.Reading
import SongBundle.Proofs.Library.Asking
import SongBundle.Proofs.Library.Calls

/-!
# Building twice

A build that follows another one with the same output path reads what it would have read without it,
if all that it reads is outside this path (`FileTree.Outside`).  So it plans the same bundle, and the
files of this bundle are all there afterwards.  But nothing is ever removed: files that only the
first build wrote are left.

`BuildRequest.files_of_rebuild` compares the bundle directory after both builds with that of the
second one alone, and `BuildRequest.exists_leftover` is a file that is left.
-/

set_option autoImplicit false

namespace SongBundle

open FileTree EntryName

variable {t t' t₁ t₂ : FileTree} {q : Place} {names : Place} {bytes : ByteArray}

/-- A path is outside an output path: nothing on its way or where it leads is where the output path
leads, or is still missing on the way there. -/
def FileTree.Outside (t : FileTree) (outputPath path : String) : Prop :=
  ∀ q, q ∈ t.passes path ∨ t.placeOf path <+: q →
    ¬t.placeOf outputPath <+: q ∧ (q ∈ t.passes outputPath → t.node? q ≠ none)

namespace BuildRequest

variable {c : BuildConfig} {r : BuildRequest} {o : BuildOutput}

/-! ## The places of a commit -/

/-- What a commit writes is in its bundle, or it is the timing file. -/
theorem fileOf_commit (ho : o.bundle.Contained)
    (h : t.FileOf (o.commit r.song r.outputPath).actions q bytes) :
    (∃ names, o.bundle.HasFile names bytes ∧ q = r.bundlePlace t ++ names) ∨
      q = r.timingPlace t := by
  obtain ⟨path, hpath, rfl⟩ := h
  rcases BuildOutput.write_mem_commit.1 hpath with hpath | ⟨rfl, -⟩
  · obtain ⟨entry, hentry, rfl⟩ := AssetStore.write_mem_save.1 hpath
    refine .inl ⟨Path.parts entry, ⟨entry, hentry, rfl⟩, ?_⟩
    rw [placeOf_join t _ (ho.entries entry (List.mem_map_of_mem hentry)), placeOf_bundle]
  · exact .inr rfl

/-- A commit writes the entries of its bundle into the directory of the bundle. -/
theorem fileOf_commit_iff (ho : o.bundle.Contained) (hname : '/' ∉ r.song.name.toList) :
    t.FileOf (o.commit r.song r.outputPath).actions (r.bundlePlace t ++ names) bytes ↔
      o.bundle.HasFile names bytes := by
  constructor
  · intro h
    rcases fileOf_commit ho h with ⟨names', hhas, hq⟩ | hq
    · exact List.append_cancel_left hq ▸ hhas
    · rw [timingPlace_eq hname, bundlePlace, List.append_assoc] at hq
      have hmidi := (List.cons.inj (List.append_cancel_left hq)).1
      exact absurd hmidi.symm (BuildOutput.midiName_ne r.song (by decide))
  · rintro ⟨entry, hentry, rfl⟩
    refine ⟨_, BuildOutput.write_mem_commit.2
      (.inl (AssetStore.write_mem_save.2 ⟨entry, hentry, rfl⟩)), ?_⟩
    rw [placeOf_join t _ (ho.entries entry (List.mem_map_of_mem hentry)), placeOf_bundle]

/-- The directories of a commit are on the way to the output path, or are the directory of the bundle
or directories in it. -/
theorem directoryOf_commit (ho : o.bundle.Contained)
    (h : t.DirectoryOf (o.commit r.song r.outputPath).actions q) :
    q ∈ t.passes r.outputPath ∨
      ∃ names, (names = [] ∨ o.bundle.Leads names) ∧ q = r.bundlePlace t ++ names := by
  have hway (hq : q ∈ t.passes (Path.join r.outputPath BuildOutput.bundleDirectory)) :
      q ∈ t.passes r.outputPath ∨
        ∃ names, (names = [] ∨ o.bundle.Leads names) ∧ q = r.bundlePlace t ++ names :=
    (mem_passes_bundle hq).imp id fun hq ↦ ⟨[], .inl rfl, hq.trans (List.append_nil _).symm⟩
  obtain ⟨path, hpath, hpasses⟩ := h
  rw [BuildOutput.makeDirectories_mem_commit, AssetStore.save_eq, List.mem_cons] at hpath
  rcases hpath with hpath | hpath
  · cases hpath
    exact hway hpasses
  · rcases ho.leads_of_directoryOf ⟨path, hpath, hpasses⟩ with hq | ⟨names, hleads, hq⟩
    · exact hway hq
    · rw [placeOf_bundle] at hq
      exact .inr ⟨names, .inr hleads, hq⟩

/-- The directory of a bundle has the files of the bundle after it was committed, and those that were
there already and that the bundle does not have. -/
theorem node?_eq_file_iff_of_commit (ho : o.bundle.Contained) (hname : '/' ∉ r.song.name.toList)
    (h : t.perform (o.commit r.song r.outputPath).actions = (.ok (), t')) :
    t'.node? (r.bundlePlace t ++ names) = some (.file bytes) ↔
      o.bundle.HasFile names bytes ∨ (∀ other, ¬o.bundle.HasFile names other) ∧
        t.node? (r.bundlePlace t ++ names) = some (.file bytes) := by
  rw [node?_eq_file_iff_of_perform_eq_ok h fun b b' hb hb' ↦
    ((fileOf_commit_iff ho hname).1 hb).inj ((fileOf_commit_iff ho hname).1 hb')]
  simp only [fileOf_commit_iff ho hname]

/-! ## Builds into fresh paths -/

/-- Nothing is in the way of a bundle in a fresh path, if none of its entries leads to another of its
names. -/
theorem clear_commit (hfresh : t.Fresh r.outputPath) (ho : o.bundle.Contained)
    (hname : '/' ∉ r.song.name.toList)
    (hleads : ∀ entry ∈ o.bundle.entries.keys, ¬o.bundle.Leads (Path.parts entry))
    (hvalid : ∀ action ∈ (o.commit r.song r.outputPath).actions, Path.Valid action.path) :
    t.Clear (o.commit r.song r.outputPath).actions := by
  have hbundle (names : Place) : r.bundlePlace t ++ names =
      t.placeOf r.outputPath ++ BuildOutput.bundleDirectory :: names := by
    rw [bundlePlace, List.append_assoc, List.singleton_append]
  have hfile {q : Place} {bytes : ByteArray}
      (h : t.FileOf (o.commit r.song r.outputPath).actions q bytes) :
      ∃ names, names ≠ [] ∧ q = t.placeOf r.outputPath ++ names := by
    rcases fileOf_commit ho h with ⟨names, -, rfl⟩ | rfl
    · exact ⟨_, List.cons_ne_nil _ _, hbundle names⟩
    · exact ⟨_, List.cons_ne_nil _ _, timingPlace_eq hname⟩
  refine ⟨hvalid, fun q hq ↦ ⟨fun bytes ↦ ?_, fun bytes hwritten ↦ ?_⟩, fun q bytes hq ↦ ?_⟩
  · rcases directoryOf_commit ho hq with hq | ⟨names, -, rfl⟩
    · exact hfresh.node?_ne_file hq bytes
    · rw [hbundle, hfresh.node?_eq_none (List.cons_ne_nil _ _)]
      exact fun h ↦ (nomatch h)
  · rcases directoryOf_commit ho hq with hq | ⟨names, hnames, rfl⟩
    · obtain ⟨names, hne, rfl⟩ := hfile hwritten
      exact hfresh.notMem_passes hne hq
    · obtain ⟨entry, hentry, rfl⟩ := (fileOf_commit_iff ho hname).1 hwritten
      rcases hnames with hnil | hlead
      · exact Path.parts_ne_nil entry hnil
      · exact hleads entry (List.mem_map_of_mem hentry) hlead
  · obtain ⟨names, hne, rfl⟩ := hfile hq
    rw [hasDirectory, hfresh.node?_eq_none hne]

/-- A bundle that was built into a fresh path is all that there is in its directory. -/
theorem exists_build_of_fresh (hclosed : t.Closed) (hfresh : t.Fresh r.outputPath)
    (ho : o.bundle.Contained) (hname : '/' ∉ r.song.name.toList)
    (hleads : ∀ entry ∈ o.bundle.entries.keys, ¬o.bundle.Leads (Path.parts entry))
    (hvalid : ∀ action ∈ (o.commit r.song r.outputPath).actions, Path.Valid action.path)
    (hplan : r.plan c t = .ok (o.commit r.song r.outputPath)) :
    ∃ report t', r.build c t = (.ok report, t') ∧ ∀ names bytes,
      t'.node? (r.bundlePlace t ++ names) = some (.file bytes) ↔ o.bundle.HasFile names bytes := by
  obtain ⟨t', hperform⟩ := (clear_commit hfresh ho hname hleads hvalid).perform hclosed
    (o.prepared_commit hclosed hname r.outputPath)
  refine ⟨_, t', build_eq_ok_iff.2 ⟨_, hplan, rfl, hperform⟩, fun names bytes ↦ ?_⟩
  have hnone : t.node? (r.bundlePlace t ++ names) = none := by
    rw [bundlePlace, List.append_assoc]
    exact hfresh.node?_eq_none (List.cons_ne_nil _ _)
  rw [node?_eq_file_iff_of_commit ho hname hperform, hnone]
  simp

/-! ## What the second build reads -/

/-- A build asks its library for a key. -/
def Asks (r : BuildRequest) (c : BuildConfig) (t : FileTree) (k : MoveKey) : Prop :=
  k ∈ (CompiledSong.session (.ofFolder t r.libraryRoot) c r).moveLoads ∨
    k ∈ (CompiledSong.session (.ofFolder t r.libraryRoot) c r).sequenceLoads

/-- The template of a build, and all that it asks its library for, are outside an output path. -/
structure ReadsOutside (r : BuildRequest) (c : BuildConfig) (t : FileTree) (outputPath : String) :
    Prop where
  template : ∀ directory, c.paths.templateDirectory = some directory →
    t.Outside outputPath directory
  library : ∀ k, r.Asks c t k → t.Outside outputPath (Path.join r.libraryRoot k.directory)

/-- A build changes nothing outside its output path. -/
theorem agreeOn_of_build (ht : t.Named) (hname : '/' ∉ r.song.name.toList) {path : String}
    (h : t.Outside r.outputPath path) : t.AgreeOn (r.build c t).2 path := by
  have hgains : t.Extends _ _ (r.build c t).2 := extends_build ht
  have hsame (q : Place) (hq : q ∈ t.passes path ∨ t.placeOf path <+: q) :
      (r.build c t).2.node? q = t.node? q := by
    obtain ⟨houtside, hway⟩ := h q hq
    have hbundle : ¬r.bundlePlace t <+: q := fun hpre ↦
      houtside ((List.prefix_append _ _).trans hpre)
    rcases hgains.node q with hsame | ⟨hnone, -, hpasses | hpre⟩ | ⟨-, _, -, ⟨hpre, -⟩ | hq⟩
    · exact hsame
    · exact absurd hnone (hway hpasses)
    · exact absurd hpre hbundle
    · exact absurd hpre hbundle
    · rw [timingPlace_eq hname] at hq
      exact absurd (hq ▸ List.prefix_append _ _) houtside
  exact ⟨hgains.home_eq, fun q hq ↦ hsame q (.inl hq),
    fun names ↦ hsame _ (.inr (List.prefix_append _ _))⟩

theorem template_congr
    (h : ∀ directory, c.paths.templateDirectory = some directory → t.AgreeOn t' directory) :
    c.template t' = c.template t := by
  rw [BuildConfig.template, BuildConfig.template]
  cases hdirectory : c.paths.templateDirectory with
  | none => rfl
  | some directory => exact AssetStore.load_congr (h directory hdirectory)

/-- What is planned depends on the template and on what the library is asked for. -/
theorem plan_congr
    (htemplate : ∀ directory, c.paths.templateDirectory = some directory → t.AgreeOn t' directory)
    (hlibrary : ∀ k, r.Asks c t k → t.AgreeOn t' (Path.join r.libraryRoot k.directory)) :
    r.plan c t' = r.plan c t := by
  have hcompile : r.compile c t' = r.compile c t :=
    CompiledSong.compile_congr
      ⟨fun k hk ↦ (Library.ofFolder_congr (hlibrary k (.inl hk))).1,
        fun k hk ↦ (Library.ofFolder_congr (hlibrary k (.inr hk))).2⟩
  rw [plan, plan, template_congr htemplate, hcompile]

/-- The output path makes no difference to what is planned but for where it is put. -/
theorem exists_plan_movedTo {p : BuildPlan} (ht : t.Named) (h : r.plan c t = .ok p) :
    ∃ o : BuildOutput, o.bundle.Contained ∧ p = o.commit r.song r.outputPath ∧
      ∀ outputPath, (r.movedTo outputPath).plan c t = .ok (o.commit r.song outputPath) := by
  obtain ⟨template, htemplate, song, hsong, o, hpackage, rfl⟩ := plan_eq_ok_iff.1 h
  exact ⟨o, song.contained_of_package (c.contained_of_template ht htemplate) hpackage, rfl,
    fun outputPath ↦ plan_eq_ok_iff.2 ⟨template, htemplate, song, hsong, o, hpackage, rfl⟩⟩

/-! ## After both builds -/

variable {r₁ r₂ : BuildRequest} {c₁ c₂ : BuildConfig} {report₁ report₂ : BuildReport}
variable {outputPath : String}

/-- The second build commits the bundle that it has on its own. -/
theorem exists_build_alone (hclosed : t.Closed) (hnamed : t.Named)
    (hname₁ : '/' ∉ r₁.song.name.toList) (hname₂ : '/' ∉ r₂.song.name.toList)
    (houtside : r₂.ReadsOutside c₂ t r₁.outputPath)
    (h₁ : r₁.build c₁ t = (.ok report₁, t₁)) (h₂ : r₂.build c₂ t₁ = (.ok report₂, t₂))
    (hfresh : t.Fresh outputPath)
    (hvalid : ∀ p, (r₂.movedTo outputPath).plan c₂ t = .ok p →
      ∀ action ∈ p.actions, Path.Valid action.path) :
    ∃ o : BuildOutput, o.bundle.Contained ∧
      t₁.perform (o.commit r₂.song r₂.outputPath).actions = (.ok (), t₂) ∧
      ∃ report t', (r₂.movedTo outputPath).build c₂ t = (.ok report, t') ∧ ∀ names bytes,
        t'.node? ((r₂.movedTo outputPath).bundlePlace t ++ names) = some (.file bytes) ↔
          o.bundle.HasFile names bytes := by
  have hagree {path : String} (h : t.Outside r₁.outputPath path) : t.AgreeOn t₁ path := by
    have hagree := agreeOn_of_build (c := c₁) hnamed hname₁ h
    rwa [h₁] at hagree
  obtain ⟨p, hplan, -, hperform⟩ := build_eq_ok_iff.1 h₂
  rw [plan_congr (fun directory h ↦ hagree (houtside.template directory h))
    fun k h ↦ hagree (houtside.library k h)] at hplan
  obtain ⟨o, ho, rfl, hmoved⟩ := exists_plan_movedTo hnamed hplan
  have hclosed₁ : t₁.Closed := by
    obtain ⟨_, -, -, hperform₁⟩ := build_eq_ok_iff.1 h₁
    exact hclosed.of_perform hperform₁
  -- had an entry led to another name, the second build would have failed
  have hleads := ho.not_leads_of_perform hclosed₁ hperform fun action haction ↦
    List.mem_append_left _ (List.mem_cons_of_mem _ haction)
  have hbuild := exists_build_of_fresh (r := r₂.movedTo outputPath) hclosed hfresh ho hname₂ hleads
    (hvalid _ (hmoved outputPath)) (hmoved outputPath)
  exact ⟨o, ho, hperform, hbuild⟩

/-- **What is in a bundle directory after two builds.**  If all that the second build reads is
outside the output path of the first, it can be done without the first, into any fresh path.  The
bundle directory then has just the files that are there, with the same contents, and those that were
left from before the second build because it writes no such file. -/
theorem files_of_rebuild (hclosed : t.Closed) (hnamed : t.Named)
    (hname₁ : '/' ∉ r₁.song.name.toList) (hname₂ : '/' ∉ r₂.song.name.toList)
    (houtside : r₂.ReadsOutside c₂ t r₁.outputPath)
    (h₁ : r₁.build c₁ t = (.ok report₁, t₁)) (h₂ : r₂.build c₂ t₁ = (.ok report₂, t₂))
    (hfresh : t.Fresh outputPath)
    (hvalid : ∀ p, (r₂.movedTo outputPath).plan c₂ t = .ok p →
      ∀ action ∈ p.actions, Path.Valid action.path) :
    ∃ report t', (r₂.movedTo outputPath).build c₂ t = (.ok report, t') ∧ ∀ names bytes,
      t₂.node? (r₂.bundlePlace t ++ names) = some (.file bytes) ↔
        t'.node? ((r₂.movedTo outputPath).bundlePlace t ++ names) = some (.file bytes) ∨
          (∀ other,
            t'.node? ((r₂.movedTo outputPath).bundlePlace t ++ names) ≠ some (.file other)) ∧
          t₁.node? (r₂.bundlePlace t ++ names) = some (.file bytes) := by
  obtain ⟨o, ho, hperform, report, t', hbuild, hfiles⟩ :=
    exists_build_alone hclosed hnamed hname₁ hname₂ houtside h₁ h₂ hfresh hvalid
  refine ⟨report, t', hbuild, fun names bytes ↦ ?_⟩
  have hgains : t.Extends _ _ (r₁.build c₁ t).2 := extends_build hnamed
  rw [h₁] at hgains
  have hplace : r₂.bundlePlace t₁ = r₂.bundlePlace t := by
    rw [bundlePlace, bundlePlace, placeOf_congr hgains.home_eq]
  rw [← hplace, node?_eq_file_iff_of_commit ho hname₂ hperform]
  simp only [ne_eq, hfiles]

/-! ## A file that is left -/

/-- A request for a bundle with nothing in it but a camera. -/
def staged : BuildRequest := bare.filmed (.ofList [(.easy, [⟨1, "front"⟩])])

theorem exists_plan_staged (t : FileTree) :
    ∃ o : BuildOutput,
      (∀ outputPath, (staged.movedTo outputPath).plan .default t =
        .ok (o.commit staged.song outputPath)) ∧
      (∀ container ∈ o.bundle.containers.toList, container ∈ AssetStore.requiredContainers) ∧
      ∀ entry, entry ∈ o.bundle.entries.keys ↔
        entry ∈ ["moves/graph.json", "battle/steps.json", "partyjump/intervals.json",
          "anims/easy.json", "song/manifest.json"] := by
  obtain ⟨song, expressions, hsong, hpractice, hsequences, hanims⟩ :=
    exists_compile_bare (.ofFolder t "library") (c := .default) rfl "gonow"
      (.ofList [(.easy, [⟨1, "front"⟩])]) rfl
  refine exists_plan_of_compile (blank_default t) hsong ?_ (by decide) (by decide)
  rw [CompiledSong.entries, hpractice, hsequences, hanims]
  rfl

theorem contained_of_filmedEntries
    (hcontainers : ∀ name ∈ o.bundle.containers.toList, name ∈ AssetStore.requiredContainers)
    (hentries : ∀ name ∈ o.bundle.entries.keys, name ∈ filmedEntries) : o.bundle.Contained := by
  have hnormal : (∀ name ∈ AssetStore.requiredContainers, isNormal name = true) ∧
      ∀ name ∈ filmedEntries, isNormal name = true := by
    decide
  exact ⟨fun name h ↦ hnormal.1 name (hcontainers name h),
    fun name h ↦ hnormal.2 name (hentries name h)⟩

/-- A request without moves and practice asks for nothing. -/
theorem not_asks (hmoves : r.moves = .empty) (hpractice : r.practice = .empty) (k : MoveKey) :
    ¬r.Asks c t k := by
  have hlift {α : Type} (v : Except BuildError α) :
      Import.Keeps (· = Session.initial) (liftM v) := fun _ h ↦ h
  have hempty {α β : Type} (f : Difficulty → α → Import β) :
      Import.Keeps (· = Session.initial) ((.empty : Table Difficulty α).mapEntriesM f) :=
    (Import.keeps_pure []).map _
  have hcameras (f : Difficulty → List CameraEvent → Except BuildError (Track String)) :
      Import.Keeps (· = Session.initial)
        (r.cameras.mapEntriesM fun level events ↦ liftM (f level events)) :=
    (Import.Keeps.mapM fun e _ ↦ hlift _).map _
  have htracks : Import.Keeps (· = Session.initial)
      (Tracks.compile (.ofFolder t r.libraryRoot) r) := by
    rw [Tracks.compile, hmoves]
    exact (hempty _).bind fun _ ↦ (hcameras _).bind fun _ ↦ (hlift _).bind fun _ ↦
      Import.keeps_pure _
  have hkeeps : Import.Keeps (· = Session.initial)
      (CompiledSong.importing (.ofFolder t r.libraryRoot) c r) := by
    rw [CompiledSong.importing, hpractice]
    exact htracks.bind fun _ ↦ (hlift _).bind fun _ ↦ (hlift _).bind fun _ ↦ (hlift _).bind fun _ ↦
      (hempty _).bind fun _ ↦ (hlift _).bind fun _ ↦ Import.keeps_pure _
  rw [Asks, CompiledSong.session, hkeeps _ rfl]
  rintro (h | h) <;> cases h

/-- A template that a build is not near to is the same after it. -/
theorem Blank.of_build (hc : Blank c t) (hnamed : t.Named) (r : BuildRequest) (c' : BuildConfig)
    (hname : '/' ∉ r.song.name.toList)
    (houtside : ∀ directory, c.paths.templateDirectory = some directory →
      t.Outside r.outputPath directory) : Blank c (r.build c' t).2 := by
  have hsame := template_congr fun directory h ↦
    agreeOn_of_build (c := c') (r := r) hnamed hname (houtside directory h)
  exact ⟨hc.timing_eq, hsame ▸ hc.template⟩

theorem not_hasFile_of_bareEntries
    (hentries : ∀ name, name ∈ o.bundle.entries.keys ↔ name ∈ bareEntries) (bytes : ByteArray) :
    ¬o.bundle.HasFile ["anims", "easy.json"] bytes := by
  rintro ⟨entry, hentry, hparts⟩
  have hne : ∀ entry ∈ bareEntries, Path.parts entry ≠ ["anims", "easy.json"] := by decide
  exact hne entry ((hentries entry).1 (List.mem_map_of_mem hentry)) hparts

section

variable (hclosed : t.Closed) (hc : Blank c t)

include hclosed hc

/-- The song can be built with the camera and then without it, and the camera is left. -/
theorem exists_builds (hnamed : t.Named) (hdivided : t.Divided Shallow) (hhome : t.home = [])
    (houtside : bare.ReadsOutside c t "out") :
    ∃ report₁ t₁ report₂ t₂ bytes, staged.build .default t = (.ok report₁, t₁) ∧
      bare.build c t₁ = (.ok report₂, t₂) ∧
      t₂.node? (bare.bundlePlace t ++ ["anims", "easy.json"]) = some (.file bytes) := by
  obtain ⟨o₁, hplan₁, hcontainers₁, hentries₁⟩ := exists_plan_staged t
  have hsub : ["moves/graph.json", "battle/steps.json", "partyjump/intervals.json",
      "anims/easy.json", "song/manifest.json"] ⊆ filmedEntries := by
    decide
  have hfilmed₁ : ∀ name ∈ o₁.bundle.entries.keys, name ∈ filmedEntries := fun name hname ↦
    hsub ((hentries₁ name).1 hname)
  obtain ⟨report₁, t₁, h₁, hperform₁, hdivided₁⟩ := exists_build_of_divided (r := staged)
    hclosed hdivided hhome (hplan₁ "out") hcontainers₁ hfilmed₁ (by decide) (by decide)
    (by decide)
  have hgains₁ := extends_perform t (o₁.commit staged.song "out").actions
  rw [hperform₁] at hgains₁
  have hname : '/' ∉ bare.song.name.toList := by decide
  have hc₁ := hc.of_build hnamed staged .default hname houtside.template
  rw [h₁] at hc₁
  obtain ⟨o₂, hplan₂, hcontainers₂, hentries₂⟩ := exists_plan_bare hc₁ "gonow"
  have hfilmed₂ : ∀ name ∈ o₂.bundle.entries.keys, name ∈ filmedEntries := fun name hname ↦
    .tail _ ((hentries₂ name).1 hname)
  obtain ⟨report₂, t₂, h₂, hperform₂, -⟩ := exists_build_of_divided (r := bare)
    (hclosed.of_perform hperform₁) hdivided₁ (hgains₁.home_eq.trans hhome) (hplan₂ "out")
    hcontainers₂ hfilmed₂ (by decide) (by decide) (by decide)
  -- the first build writes the file, and the second one does not
  obtain ⟨bytes, hbytes⟩ := Table.mem_keys_iff.1 ((hentries₁ "anims/easy.json").2 (by decide))
  have hfirst : t₁.node? (bare.bundlePlace t ++ ["anims", "easy.json"]) =
      some (.file bytes) :=
    (node?_eq_file_iff_of_commit (r := staged) (contained_of_filmedEntries hcontainers₁ hfilmed₁)
      hname hperform₁).2 (.inl ⟨_, Table.get?_eq_some_iff.1 hbytes, by decide⟩)
  have hsame : bare.bundlePlace t₁ = bare.bundlePlace t :=
    congrArg (· ++ [BuildOutput.bundleDirectory]) (placeOf_congr hgains₁.home_eq "out")
  refine ⟨report₁, t₁, report₂, t₂, bytes, h₁, h₂, ?_⟩
  rw [← hsame, node?_eq_file_iff_of_commit (contained_of_filmedEntries hcontainers₂ hfilmed₂) hname
    hperform₂, hsame]
  exact .inr ⟨not_hasFile_of_bareEntries hentries₂, hfirst⟩

/-- The song without the camera can be built on its own. -/
theorem exists_build_fresh (hfresh : t.Fresh "fresh") :
    (∀ p, (bare.movedTo "fresh").plan c t = .ok p →
      ∀ action ∈ p.actions, Path.Valid action.path) ∧
    ∃ report t', (bare.movedTo "fresh").build c t = (.ok report, t') ∧ ∀ bytes,
      t'.node? ((bare.movedTo "fresh").bundlePlace t ++ ["anims", "easy.json"]) ≠
        some (.file bytes) := by
  obtain ⟨o, hplan, hcontainers, hentries⟩ := exists_plan_bare hc "gonow"
  have hfilmed : ∀ name ∈ o.bundle.entries.keys, name ∈ filmedEntries := fun name hname ↦
    .tail _ ((hentries name).1 hname)
  have hpaths : (∀ path ∈ bareDirectories "fresh/bundle", Path.Valid path) ∧
      ∀ path ∈ bareFiles "fresh" bare.song, Path.Valid path := by
    decide
  have hvalid : ∀ action ∈ (o.commit bare.song "fresh").actions, Path.Valid action.path := by
    rintro (path | ⟨path, bytes⟩) haction
    · exact hpaths.1 path (mem_bareDirectories hcontainers hfilmed haction)
    · exact hpaths.2 path (mem_bareFiles hfilmed haction)
  have hapart : ∀ entry ∈ filmedEntries,
      (∀ container ∈ AssetStore.requiredContainers,
        ¬Path.parts entry <+: Path.parts container) ∧
      ∀ entry' ∈ filmedEntries, ¬Path.parts entry <+: (Path.parts entry').dropLast := by
    decide
  have hleads : ∀ entry ∈ o.bundle.entries.keys, ¬o.bundle.Leads (Path.parts entry) := by
    rintro entry hentry (⟨container, hcontainer, hpre⟩ | ⟨entry', hentry', hpre⟩)
    · exact (hapart entry (hfilmed entry hentry)).1 container (hcontainers _ hcontainer) hpre
    · exact (hapart entry (hfilmed entry hentry)).2 entry' (hfilmed _ hentry') hpre
  obtain ⟨report, t', h, hfiles⟩ := exists_build_of_fresh (r := bare.movedTo "fresh") hclosed
    hfresh (contained_of_filmedEntries hcontainers hfilmed) (by decide) hleads hvalid
    (hplan "fresh")
  refine ⟨fun p hp ↦ ?_, report, t', h, fun bytes ↦ ?_⟩
  · obtain rfl := Except.ok.inj ((hplan "fresh").symm.trans hp)
    exact hvalid
  · rw [ne_eq, hfiles]
    exact not_hasFile_of_bareEntries hentries bytes

end

/-! ## A tree with a template -/

/-- The places of a template that has the containers of every bundle, and those above it. -/
def workshopPlaces : List Place :=
  [] :: ["template"] :: AssetStore.requiredContainers.map fun name ↦ ["template", name]

/-- A tree with nothing in it but that template. -/
def workshop : FileTree := ⟨.ofList (workshopPlaces.tail.map fun place ↦ (place, .directory)), []⟩

/-- The settings that name the template. -/
def templated : BuildConfig := ⟨.default, ⟨some "template"⟩⟩

theorem node?_workshop (q : Place) :
    workshop.node? q = if q ∈ workshopPlaces then some .directory else none := by
  by_cases hq : q = []
  · rw [hq]
    rfl
  have hmem : q ∈ workshopPlaces ↔ q ∈ workshopPlaces.tail := by
    rw [workshopPlaces, List.tail_cons, List.mem_cons, or_iff_right hq]
  rw [node?, if_neg hq]
  simp only [hmem]
  cases hnode : workshop.nodes.get? q with
  | some node =>
    obtain ⟨before, after, hsplit, -⟩ := Table.get?_ofList_eq_some_iff_append.1 hnode
    have hentry : (q, node) ∈ workshopPlaces.tail.map fun place ↦ (place, FileNode.directory) := by
      rw [hsplit]
      simp
    obtain ⟨place, hplace, heq⟩ := List.mem_map.1 hentry
    obtain ⟨rfl, rfl⟩ := Prod.mk.inj heq
    rw [if_pos hplace]
  | none =>
    refine (if_neg fun hplace ↦ ?_).symm
    have hkeys : q ∈ workshop.nodes.keys :=
      Table.mem_keys_ofList.2 ⟨(q, .directory), List.mem_map.2 ⟨q, hplace, rfl⟩, rfl⟩
    obtain ⟨node, hget⟩ := Table.mem_keys_iff.1 hkeys
    rw [hnode] at hget
    cases hget

theorem mem_of_node?_workshop {node : FileNode} (h : workshop.node? q = some node) :
    q ∈ workshopPlaces ∧ node = .directory := by
  rw [node?_workshop] at h
  split at h
  · rename_i hplace
    exact ⟨hplace, (Option.some.inj h).symm⟩
  · cases h

theorem closed_workshop : workshop.Closed := by
  have hparents : ∀ place ∈ workshopPlaces, place.dropLast ∈ workshopPlaces := by decide
  refine ⟨rfl, fun place name h ↦ ?_⟩
  obtain ⟨node, hnode⟩ := Option.isSome_iff_exists.1 h
  have hparent := hparents _ (mem_of_node?_workshop hnode).1
  rw [List.dropLast_concat] at hparent
  rw [hasDirectory_iff, node?_workshop, if_pos hparent]

theorem named_workshop : workshop.Named := by
  have hproper : ∀ place ∈ workshopPlaces, Proper place := by decide
  exact fun place node h ↦ hproper place (mem_of_node?_workshop h).1

theorem divided_workshop : workshop.Divided Shallow := by
  have hshallow : ∀ place ∈ workshopPlaces, Shallow place := by decide
  refine ⟨fun q h ↦ hshallow q (mem_of_node?_workshop h).1, fun q bytes h ↦ ?_⟩
  exact nomatch (mem_of_node?_workshop h).2

theorem fresh_workshop : workshop.Fresh "fresh" := by
  have hplaces : ∀ place ∈ workshopPlaces, ¬["fresh"] <+: place := by decide
  have hpasses : workshop.passes "fresh" = [[], ["fresh"]] := rfl
  have hplace : workshop.placeOf "fresh" = ["fresh"] := rfl
  refine fresh_of_absent closed_workshop (by decide) (fun q _ bytes h ↦ ?_) (fun names _ ↦ ?_)
    fun names hne ↦ ?_
  · exact nomatch (mem_of_node?_workshop h).2
  · rw [hplace, node?_workshop, if_neg fun h ↦ hplaces _ h (List.prefix_append _ _)]
  · rw [hplace, hpasses]
    simp [hne]

theorem blank_templated : Blank templated workshop := ⟨rfl, _, rfl, rfl, rfl⟩

theorem readsOutside_templated : bare.ReadsOutside templated workshop "out" := by
  refine ⟨fun directory h q hq ↦ ?_, fun k h ↦ absurd h (not_asks rfl rfl k)⟩
  obtain rfl : "template" = directory := Option.some.inj h
  have hout : workshop.placeOf "out" = ["out"] ∧ workshop.passes "out" = [[], ["out"]] :=
    ⟨rfl, rfl⟩
  have htemplate : workshop.placeOf "template" = ["template"] ∧
      workshop.passes "template" = [[], ["template"]] := ⟨rfl, rfl⟩
  rw [htemplate.1, htemplate.2] at hq
  rw [hout.1, hout.2]
  obtain rfl | ⟨names, rfl⟩ : q = [] ∨ ["template"] <+: q := by
    rcases hq with hq | hq
    · rcases List.mem_pair.1 hq with rfl | rfl
      · exact .inl rfl
      · exact .inr (List.prefix_refl _)
    · exact .inr hq
  · exact ⟨by decide, fun _ h ↦ nomatch h⟩
  · exact ⟨by simp, by simp⟩

/-! ## Builds one after the other -/

/-- A build without a template, and one with a template after it. -/
theorem files_of_rebuild_templated :
    ∃ report₁ t₁ report₂ t₂, workshop.Closed ∧ workshop.Named ∧
      '/' ∉ staged.song.name.toList ∧ '/' ∉ bare.song.name.toList ∧
      bare.ReadsOutside templated workshop staged.outputPath ∧
      staged.build .default workshop = (.ok report₁, t₁) ∧
      bare.build templated t₁ = (.ok report₂, t₂) ∧ workshop.Fresh "fresh" ∧
      (∀ p, (bare.movedTo "fresh").plan templated workshop = .ok p →
        ∀ action ∈ p.actions, Path.Valid action.path) ∧
      ∃ report t', (bare.movedTo "fresh").build templated workshop = (.ok report, t') ∧
        ∀ names bytes, t₂.node? (bare.bundlePlace workshop ++ names) = some (.file bytes) ↔
          t'.node? ((bare.movedTo "fresh").bundlePlace workshop ++ names) = some (.file bytes) ∨
            (∀ other,
              t'.node? ((bare.movedTo "fresh").bundlePlace workshop ++ names) ≠
                some (.file other)) ∧
            t₁.node? (bare.bundlePlace workshop ++ names) = some (.file bytes) := by
  obtain ⟨report₁, t₁, report₂, t₂, bytes, h₁, h₂, -⟩ := exists_builds closed_workshop
    blank_templated named_workshop divided_workshop rfl readsOutside_templated
  have hname₁ : '/' ∉ staged.song.name.toList := by decide
  have hname₂ : '/' ∉ bare.song.name.toList := by decide
  have hvalid := (exists_build_fresh closed_workshop blank_templated fresh_workshop).1
  exact ⟨report₁, t₁, report₂, t₂, closed_workshop, named_workshop, hname₁, hname₂,
    readsOutside_templated, h₁, h₂, fresh_workshop, hvalid,
    files_of_rebuild closed_workshop named_workshop hname₁ hname₂ readsOutside_templated h₁ h₂
      fresh_workshop hvalid⟩

theorem fresh_fresh : vacant.Fresh "fresh" :=
  fresh_vacant (by decide) (by decide) (by decide)

theorem readsOutside_bare : bare.ReadsOutside .default t "out" :=
  ⟨fun _ h ↦ (nomatch h), fun k h ↦ absurd h (not_asks rfl rfl k)⟩

/-- **A bundle may have files of an earlier build.**  The camera of the first build is in the bundle
directory after the second, which on its own does not put it into its bundle. -/
theorem exists_leftover :
    ∃ report₁ t₁ report₂ t₂ report t' bytes, bare.outputPath = staged.outputPath ∧
      bare.ReadsOutside .default vacant staged.outputPath ∧ vacant.Fresh "fresh" ∧
      staged.build .default vacant = (.ok report₁, t₁) ∧
      bare.build .default t₁ = (.ok report₂, t₂) ∧
      (bare.movedTo "fresh").build .default vacant = (.ok report, t') ∧
      t₂.node? (bare.bundlePlace vacant ++ ["anims", "easy.json"]) = some (.file bytes) ∧
      ∀ other, t'.node? ((bare.movedTo "fresh").bundlePlace vacant ++ ["anims", "easy.json"]) ≠
        some (.file other) := by
  obtain ⟨report₁, t₁, report₂, t₂, bytes, h₁, h₂, hfile⟩ := exists_builds closed_vacant
    (blank_default vacant) named_vacant divided_vacant rfl readsOutside_bare
  obtain ⟨-, report, t', h, hnone⟩ :=
    exists_build_fresh closed_vacant (blank_default vacant) fresh_fresh
  exact ⟨report₁, t₁, report₂, t₂, report, t', bytes, rfl, readsOutside_bare, fresh_fresh, h₁, h₂,
    h, hfile, hnone⟩

end BuildRequest

end SongBundle
