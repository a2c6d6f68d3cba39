import SongBundle.Proofs.Build.Containment
import SongBundle.Proofs.Files.Making

/-!
# Writing a store into an empty directory

Once its directory is there and holds nothing (`FileTree.Empty`), a store is written by making its
containers and the directories of its entries, and then the entries (`AssetStore.fill`).  If all of
that succeeds, the directory holds the entries of the store as files and, as directories, whatever
leads to a container or an entry (`AssetStore.node?_of_fill`); so no entry can have led to another
name.  This is all that can be in the way (`AssetStore.exists_fill`).
-/

set_option autoImplicit false

namespace SongBundle

open FileTree EntryName

namespace FileTree

/-- A path leads to a directory with nothing in it. -/
structure Empty (t : FileTree) (root : String) : Prop where
  closed : t.Closed
  directory : t.isDirectory root = true
  nothing : ∀ names, names ≠ [] → t.node? (t.placeOf root ++ names) = none

/-- A path leads to a directory with nothing in it as soon as this directory is made, if it is
missing. -/
def Fresh (t : FileTree) (root : String) : Prop :=
  ∃ u : FileTree, (makeDirectories root).run t = (.ok (), u) ∧ u.Empty root

variable {t : FileTree} {root : String} {names : Place}

/-- Nothing on the way to an empty directory is in it. -/
theorem Empty.notMem_passes (h : t.Empty root) (hne : names ≠ []) :
    t.placeOf root ++ names ∉ t.passes root := by
  intro hmem
  have hdir := hasDirectory_iff.1 (hasDirectory_of_isDirectory h.directory _ hmem)
  rw [h.nothing names hne] at hdir
  cases hdir

/-- A path is fresh if nothing stands where it leads and no file on its way there. -/
theorem fresh_of_absent (hclosed : t.Closed) (hvalid : Path.Valid root)
    (hfree : ∀ q ∈ t.passes root, ∀ bytes, t.node? q ≠ some (.file bytes))
    (hnothing : ∀ names, names ≠ [] → t.node? (t.placeOf root ++ names) = none)
    (hpasses : ∀ names, names ≠ [] → t.placeOf root ++ names ∉ t.passes root) : t.Fresh root := by
  obtain ⟨u, hrun, hclosed', hdirs⟩ := exists_makeDirectories hclosed hvalid hfree
  have hgains : t.Extends _ (fun _ _ ↦ False) _ := extends_makeDirectories t root
  rw [hrun] at hgains
  have hplace : u.placeOf root = t.placeOf root := placeOf_congr hgains.home_eq root
  rw [← passes_congr hgains.home_eq root] at hdirs
  refine ⟨u, hrun, hclosed', isDirectory_iff.2 ⟨?_, hdirs _ (placeOf_mem_passes u root)⟩, ?_⟩
  · rw [resolve, if_pos hvalid.usable, placeOf, placeFrom_eq_foldl]
    exact follow_of_directories hvalid.parts hdirs
  · intro names hne
    rw [hplace]
    rcases hgains.node (t.placeOf root ++ names) with hsame | ⟨-, -, hmade⟩ | ⟨-, _, -, hfalse⟩
    · exact hsame.trans (hnothing names hne)
    · exact absurd hmade (hpasses names hne)
    · exact hfalse.elim

/-- A fresh path is empty in a tree with some directories more. -/
theorem Fresh.exists_empty (h : t.Fresh root) :
    ∃ u : FileTree, t.Extends (· ∈ t.passes root) (fun _ _ ↦ False) u ∧ u.Empty root := by
  obtain ⟨u, hrun, hempty⟩ := h
  have hgains : t.Extends _ (fun _ _ ↦ False) _ := extends_makeDirectories t root
  rw [hrun] at hgains
  exact ⟨u, hgains, hempty⟩

/-- A fresh path leads to nothing but its directory. -/
theorem Fresh.node?_eq_none (h : t.Fresh root) (hne : names ≠ []) :
    t.node? (t.placeOf root ++ names) = none := by
  obtain ⟨u, hgains, hempty⟩ := h.exists_empty
  have hnone := hempty.nothing names hne
  rw [placeOf_congr hgains.home_eq] at hnone
  rcases hgains.node (t.placeOf root ++ names) with hsame | ⟨hnone, -⟩ | ⟨-, _, -, hfalse⟩
  · exact hsame.symm.trans hnone
  · exact hnone
  · exact hfalse.elim

/-- No file is on the way of a fresh path. -/
theorem Fresh.node?_ne_file (h : t.Fresh root) {q : Place} (hq : q ∈ t.passes root)
    (bytes : ByteArray) : t.node? q ≠ some (.file bytes) := by
  obtain ⟨u, hgains, hempty⟩ := h.exists_empty
  rw [← passes_congr hgains.home_eq] at hq
  have hdir := hasDirectory_iff.1 (hasDirectory_of_isDirectory hempty.directory q hq)
  intro hfile
  rcases hgains.node q with hsame | ⟨hnone, -⟩ | ⟨-, _, -, hfalse⟩
  · rw [hdir, hfile] at hsame
    cases hsame
  · rw [hfile] at hnone
    cases hnone
  · exact hfalse

/-- Nothing on the way of a fresh path is in its directory. -/
theorem Fresh.notMem_passes (h : t.Fresh root) (hne : names ≠ []) :
    t.placeOf root ++ names ∉ t.passes root := by
  obtain ⟨u, hgains, hempty⟩ := h.exists_empty
  rw [← placeOf_congr hgains.home_eq, ← passes_congr hgains.home_eq]
  exact hempty.notMem_passes hne

end FileTree

namespace BuildRequest

/-- In a tree with nothing in it a path is fresh if it does not climb back out of its place. -/
theorem fresh_vacant {root : String} (hvalid : Path.Valid root)
    (hpasses : ∀ q ∈ vacant.passes root, ¬vacant.placeOf root <+: q ∨ q = vacant.placeOf root)
    (hplace : vacant.placeOf root ≠ []) : vacant.Fresh root := by
  refine fresh_of_absent closed_vacant hvalid (fun q _ bytes ↦ ?_) (fun names _ ↦ ?_)
    fun names hne hmem ↦ ?_
  · rw [node?_vacant]
    split <;> simp
  · rw [node?_vacant, if_neg (by simp [hplace])]
  · rcases hpasses _ hmem with h | h
    · exact h (List.prefix_append _ _)
    · exact hne (List.append_right_eq_self.1 h)

end BuildRequest

namespace AssetStore

variable {s : AssetStore} {t u : FileTree} {root path : String} {names : Place} {q : Place}

/-- The changes that put the containers and entries of a store into its directory. -/
def fill (s : AssetStore) (root : String) : List FileAction :=
  s.containers.toList.map (fun name ↦ .makeDirectories (Path.join root name))
    ++ s.entries.toList.flatMap fun e ↦
      [.makeDirectories (Path.parent (Path.join root e.1)), .write (Path.join root e.1) e.2]

theorem save_eq (s : AssetStore) (root : String) :
    s.save root = .makeDirectories root :: s.fill root := rfl

theorem makeDirectories_mem_fill :
    .makeDirectories path ∈ s.fill root ↔
      (∃ name ∈ s.containers.toList, path = Path.join root name) ∨
        ∃ name ∈ s.entries.keys, path = Path.parent (Path.join root name) := by
  simp [fill, Table.keys, Table.toList, eq_comm]

theorem write_mem_fill {bytes : ByteArray} :
    .write path bytes ∈ s.fill root ↔
      ∃ name, (name, bytes) ∈ s.entries.toList ∧ path = Path.join root name := by
  simp [fill]

/-- Names that lead to a container, or to an entry but for its own name. -/
def Leads (s : AssetStore) (names : Place) : Prop :=
  (∃ container ∈ s.containers.toList, names <+: Path.parts container) ∨
    ∃ entry ∈ s.entries.keys, names <+: (Path.parts entry).dropLast

/-! ## What is found afterwards -/

/-- Directories are made on the way to where a store is written, or where names of it lead. -/
theorem Contained.leads_of_directoryOf (hs : s.Contained) (hq : t.DirectoryOf (s.fill root) q) :
    q ∈ t.passes root ∨ ∃ names, s.Leads names ∧ q = t.placeOf root ++ names := by
  obtain ⟨path, hpath, hpasses⟩ := hq
  rcases makeDirectories_mem_fill.1 hpath with ⟨name, hname, rfl⟩ | ⟨name, hname, rfl⟩
  · refine ((mem_passes_join (hs.containers name hname)).1 hpasses).imp id ?_
    exact fun ⟨front, hfront, hq⟩ ↦ ⟨front, .inl ⟨name, hname, hfront⟩, hq⟩
  · refine ((mem_passes_parent_join (hs.entries name hname)).1 hpasses).imp id ?_
    exact fun ⟨front, hfront, hq⟩ ↦ ⟨front, .inr ⟨name, hname, hfront⟩, hq⟩

theorem Contained.directoryOf_of_leads (hs : s.Contained) (hlead : s.Leads names) :
    t.DirectoryOf (s.fill root) (t.placeOf root ++ names) := by
  rcases hlead with ⟨name, hname, hlead⟩ | ⟨name, hname, hlead⟩
  · exact ⟨_, makeDirectories_mem_fill.2 (.inl ⟨name, hname, rfl⟩),
      (mem_passes_join (hs.containers name hname)).2 (.inr ⟨names, hlead, rfl⟩)⟩
  · exact ⟨_, makeDirectories_mem_fill.2 (.inr ⟨name, hname, rfl⟩),
      (mem_passes_parent_join (hs.entries name hname)).2 (.inr ⟨names, hlead, rfl⟩)⟩

/-- A store has an entry with these bytes whose name has these parts. -/
def HasFile (s : AssetStore) (names : Place) (bytes : ByteArray) : Prop :=
  ∃ entry, (entry, bytes) ∈ s.entries.toList ∧ Path.parts entry = names

theorem HasFile.inj {b b' : ByteArray} (h : s.HasFile names b) (h' : s.HasFile names b') :
    b = b' := by
  obtain ⟨entry, hentry, rfl⟩ := h
  obtain ⟨entry', hentry', hparts⟩ := h'
  obtain rfl := Path.parts_inj.1 hparts
  exact Option.some.inj
    ((Table.get?_eq_some_iff.2 hentry).symm.trans (Table.get?_eq_some_iff.2 hentry'))

/-- Files are written where the entries of a store lead. -/
theorem Contained.fileOf_fill_iff (hs : s.Contained) {bytes : ByteArray} :
    t.FileOf (s.fill root) q bytes ↔
      ∃ names, s.HasFile names bytes ∧ q = t.placeOf root ++ names := by
  have hplace {entry : String} (hentry : (entry, bytes) ∈ s.entries.toList) :
      t.placeOf (Path.join root entry) = t.placeOf root ++ Path.parts entry :=
    placeOf_join t root (hs.entries entry (List.mem_map_of_mem hentry))
  constructor
  · rintro ⟨path, hpath, hq⟩
    obtain ⟨entry, hentry, rfl⟩ := write_mem_fill.1 hpath
    exact ⟨_, ⟨entry, hentry, rfl⟩, hq.trans (hplace hentry)⟩
  · rintro ⟨_, ⟨entry, hentry, rfl⟩, rfl⟩
    exact ⟨_, write_mem_fill.2 ⟨entry, hentry, rfl⟩, (hplace hentry).symm⟩

/-- **What a store leaves in an empty directory.**  Its entries are files there, what leads to its
names are directories, and there is nothing else. -/
theorem node?_of_fill (ht : t.Empty root) (hs : s.Contained)
    (h : t.perform (s.fill root) = (.ok (), u)) (hne : names ≠ []) :
    (u.node? (t.placeOf root ++ names) = some .directory ↔ s.Leads names) ∧
      ∀ bytes, u.node? (t.placeOf root ++ names) = some (.file bytes) ↔ s.HasFile names bytes := by
  refine ⟨⟨fun hnode ↦ ?_, fun hlead ↦ ?_⟩, fun bytes ↦ ?_⟩
  · have hgains := (extends_perform t (s.fill root)).node (t.placeOf root ++ names)
    rw [h, ht.nothing names hne, hnode] at hgains
    rcases hgains with hsame | ⟨-, -, hmade⟩ | ⟨-, _, hfile, -⟩
    · cases hsame
    · obtain ⟨names', hlead, hq⟩ :=
        (hs.leads_of_directoryOf hmade).resolve_left (ht.notMem_passes hne)
      exact List.append_cancel_left hq ▸ hlead
    · cases hfile
  · exact hasDirectory_iff.1
      (hasDirectory_of_perform_eq_ok ht.closed h (hs.directoryOf_of_leads hlead))
  · have hwritten (b : ByteArray) :
        t.FileOf (s.fill root) (t.placeOf root ++ names) b ↔ s.HasFile names b := by
      simp [hs.fileOf_fill_iff]
    rw [node?_eq_file_iff_of_perform_eq_ok h, hwritten, ht.nothing names hne]
    · simp
    · exact fun b b' hb hb' ↦ ((hwritten b).1 hb).inj ((hwritten b').1 hb')

/-- A store that was written has no entry that leads to another of its names. -/
theorem Contained.not_leads_of_perform (hs : s.Contained) (hclosed : t.Closed)
    {actions : List FileAction} (h : t.perform actions = (.ok (), u))
    (hsub : s.fill root ⊆ actions) :
    ∀ entry ∈ s.entries.keys, ¬s.Leads (Path.parts entry) := by
  intro entry hentry hlead
  obtain ⟨bytes, hbytes⟩ := Table.mem_keys_iff.1 hentry
  obtain ⟨bytes', hfile, -⟩ := exists_fileOf_of_perform_eq_ok h
    (hsub (write_mem_fill.2 ⟨entry, Table.get?_eq_some_iff.1 hbytes, rfl⟩))
  have hmade : t.DirectoryOf (s.fill root) _ := hs.directoryOf_of_leads hlead
  obtain ⟨path, hpath, hpasses⟩ := hmade
  have hdir := hasDirectory_of_perform_eq_ok hclosed h ⟨path, hsub hpath, hpasses⟩
  rw [placeOf_join t root (hs.entries entry hentry)] at hfile
  rw [hasDirectory_iff, hfile] at hdir
  cases hdir

/-! ## When nothing is in the way -/

/-- A file system takes the names of a store below a directory. -/
def Accepted (s : AssetStore) (root : String) : Prop :=
  ∀ name, name ∈ s.containers.toList ∨ name ∈ s.entries.keys → Path.Valid (Path.join root name)

/-- Every entry is in a container of the store. -/
structure Housed (s : AssetStore) : Prop extends s.Contained where
  housed : ∀ name ∈ s.entries.keys, container name ∈ s.containers.toList

theorem exists_last_of_isNormal {name : String} {front : List String} (h : isNormal name = true)
    (hne : front ≠ []) (hfront : front <+: Path.parts name) :
    ∃ init last, front = init ++ [last] ∧ last ≠ "" ∧ last ≠ "." ∧ last ≠ ".." := by
  obtain ⟨init, last, rfl⟩ := (List.eq_nil_or_concat front).resolve_left hne
  rw [List.concat_eq_append] at *
  exact ⟨init, last, rfl, isProper_iff.1 (isNormal_iff.1 h last (hfront.subset (by simp)))⟩

theorem valid_parent_join {name : String} (hname : isNormal name = true)
    (hdir : (Path.parts name).dropLast ≠ []) (h : Path.Valid (Path.join root name)) :
    Path.Valid (Path.parent (Path.join root name)) := by
  obtain ⟨front, -, hjoin⟩ := Path.exists_parts_join root
  have hparts := (hjoin name (isAbsolute_eq_false_of_isNormal hname)).1
  obtain ⟨init, last, hlast, hproper⟩ :=
    exists_last_of_isNormal hname hdir (List.dropLast_prefix _)
  have hdrop : (Path.parts (Path.join root name)).dropLast = front ++ init ++ [last] := by
    rw [hparts, List.dropLast_append_of_ne_nil (Path.parts_ne_nil name), hlast, List.append_assoc]
  rcases Path.parent_cases (Path.join root name) with ⟨hempty, -⟩ | ⟨hparent, -⟩
  · exact absurd (hempty last (hdrop ▸ List.mem_append_right _ List.mem_cons_self)) hproper.1
  · have hgoes := List.dropLast_concat_getLast (Path.parts_ne_nil (Path.join root name))
    rw [← hparent] at hgoes
    rw [Path.exists_eq_append_slash (List.cons_ne_nil _ _) hgoes.symm] at h
    exact h.of_append ⟨_, _, hparent.trans hdrop, hproper⟩

/-- An entry that leads to no other name has its container before it. -/
theorem Housed.dropLast_ne_nil (hs : s.Housed) {entry : String} (hentry : entry ∈ s.entries.keys)
    (h : ¬s.Leads (Path.parts entry)) : (Path.parts entry).dropLast ≠ [] := by
  intro hnil
  refine h (.inl ⟨_, hs.housed entry hentry, ?_⟩)
  obtain ⟨part, hpart⟩ : ∃ part, Path.parts entry = [part] := by
    have hlast := List.dropLast_concat_getLast (Path.parts_ne_nil entry)
    rw [hnil] at hlast
    exact ⟨_, hlast.symm⟩
  have hself : container entry = entry := by
    have hof := Path.ofParts_parts entry
    rw [hpart] at hof
    rw [container, hpart]
    exact (String.intercalate_singleton).symm.trans hof
  simp [hself]

theorem prepared_fill (hclosed : t.Closed) (s : AssetStore) (root : String) :
    t.Prepared [] (s.fill root) := by
  rw [fill, prepared_append]
  exact ⟨prepared_of_directories (by simp), prepared_entries hclosed root _ _⟩

/-- Nothing is in the way of a store in an empty directory, if none of its entries leads to another
of its names. -/
theorem clear_fill (ht : t.Empty root) (hs : s.Housed) (haccepted : s.Accepted root)
    (h : ∀ entry ∈ s.entries.keys, ¬s.Leads (Path.parts entry)) : t.Clear (s.fill root) := by
  have hkeys {entry : String} {bytes : ByteArray} (hentry : (entry, bytes) ∈ s.entries.toList) :
      entry ∈ s.entries.keys := List.mem_map_of_mem hentry
  refine ⟨fun action haction ↦ ?_, fun q hq ↦ ⟨fun bytes hfile ↦ ?_, fun bytes hwritten ↦ ?_⟩,
    fun q bytes hq ↦ ?_⟩
  · cases action with
    | makeDirectories path =>
      rcases makeDirectories_mem_fill.1 haction with ⟨name, hname, rfl⟩ | ⟨name, hname, rfl⟩
      · exact haccepted name (.inl hname)
      · exact valid_parent_join (hs.entries name hname) (hs.dropLast_ne_nil hname (h name hname))
          (haccepted name (.inr hname))
    | write path bytes =>
      obtain ⟨name, hname, rfl⟩ := write_mem_fill.1 haction
      exact haccepted name (.inr (hkeys hname))
  · rcases hs.leads_of_directoryOf hq with hpasses | ⟨names, -, rfl⟩
    · have hdir := hasDirectory_iff.1 (hasDirectory_of_isDirectory ht.directory q hpasses)
      rw [hfile] at hdir
      cases hdir
    · by_cases hne : names = []
      · have hdir := hasDirectory_iff.1 (isDirectory_iff.1 ht.directory).2
        rw [hne, List.append_nil, hdir] at hfile
        cases hfile
      · rw [ht.nothing names hne] at hfile
        cases hfile
  · obtain ⟨_, ⟨entry, hentry, rfl⟩, rfl⟩ := hs.fileOf_fill_iff.1 hwritten
    rcases hs.leads_of_directoryOf hq with hpasses | ⟨names, hlead, hnames⟩
    · exact ht.notMem_passes (Path.parts_ne_nil entry) hpasses
    · exact h entry (hkeys hentry) (List.append_cancel_left hnames ▸ hlead)
  · obtain ⟨_, ⟨entry, -, rfl⟩, rfl⟩ := hs.fileOf_fill_iff.1 hq
    rw [hasDirectory, ht.nothing _ (Path.parts_ne_nil entry)]

/-- **A store can be written into an empty directory if none of its entries leads to another of its
names.** -/
theorem exists_fill (ht : t.Empty root) (hs : s.Housed) (haccepted : s.Accepted root)
    (h : ∀ entry ∈ s.entries.keys, ¬s.Leads (Path.parts entry)) :
    ∃ u, t.perform (s.fill root) = (.ok (), u) :=
  (clear_fill ht hs haccepted h).perform ht.closed (prepared_fill ht.closed s root)

end AssetStore

end SongBundle
