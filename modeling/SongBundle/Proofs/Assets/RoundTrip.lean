import Mathlib.Data.List.Induction
import SongBundle.Proofs.Assets.Saving
import SongBundle.Proofs.Basic

/-!
# Stores on the disk

A store that was written into a fresh directory is loaded from there with the same entries, and with
a container for every directory that its names lead through.  It can be written at all exactly if
its names keep apart (`AssetStore.Separate`): no entry is called like a container or like something
that another name lies below.

`AssetStore.load_of_save` says this of all stores that come about by adding containers and writing
entries (`AssetStore.ofCalls`), and also that nothing changes when the loaded store is written and
loaded again.
-/

set_option autoImplicit false

namespace SongBundle

open FileTree EntryName

/-! ## Names of directories -/

namespace AssetStore

variable {s : AssetStore} {t u : FileTree} {root name : String}

/-- A name of a directory: a container, or what another name of the store lies below. -/
def Directory (s : AssetStore) (name : String) : Prop :=
  name ∈ s.containers.toList ∨
    ∃ k, (k ∈ s.containers.toList ∨ k ∈ s.entries.keys) ∧ isBelow name k = true

/-- No entry is called like a container, and none like something that another name lies below. -/
def Separate (s : AssetStore) : Prop :=
  ∀ entry ∈ s.entries.keys, entry ∉ s.containers.toList ∧
    (∀ container ∈ s.containers.toList, isBelow entry container = false) ∧
    ∀ other ∈ s.entries.keys, isBelow entry other = false

theorem leads_parts_iff : s.Leads (Path.parts name) ↔ s.Directory name := by
  have hprefix {k : String} :
      Path.parts name <+: Path.parts k ↔ name = k ∨ isBelow name k = true := by
    rw [isBelow_iff]
    constructor
    · rintro ⟨rest, hrest⟩
      by_cases hnil : rest = []
      · rw [hnil, List.append_nil] at hrest
        exact .inl (Path.parts_inj.1 hrest)
      · exact .inr ⟨rest, hnil, hrest.symm⟩
    · rintro (rfl | ⟨rest, -, hrest⟩)
      · exact List.prefix_refl _
      · exact ⟨rest, hrest.symm⟩
  have hproper {k : String} :
      Path.parts name <+: (Path.parts k).dropLast ↔ isBelow name k = true := by
    rw [isBelow_iff]
    constructor
    · rintro ⟨rest, hrest⟩
      have hlast := List.dropLast_concat_getLast (Path.parts_ne_nil k)
      rw [← hrest, List.append_assoc] at hlast
      exact ⟨_, by simp, hlast.symm⟩
    · rintro ⟨rest, hne, hrest⟩
      rw [hrest, List.dropLast_append_of_ne_nil hne]
      exact List.prefix_append _ _
  simp only [Leads, Directory, hprefix, hproper]
  grind

theorem separate_iff :
    s.Separate ↔ ∀ entry ∈ s.entries.keys, ¬s.Leads (Path.parts entry) := by
  refine forall₂_congr fun entry _ ↦ ?_
  rw [leads_parts_iff, Directory, not_or, not_exists]
  refine and_congr_right fun _ ↦ ⟨fun ⟨hcontainers, hentries⟩ k ↦ ?_, fun h ↦ ⟨fun c hc ↦ ?_, ?_⟩⟩
  · rintro ⟨hk | hk, hbelow⟩
    · rw [hcontainers k hk] at hbelow
      cases hbelow
    · rw [hentries k hk] at hbelow
      cases hbelow
  · exact Bool.eq_false_iff.2 fun hbelow ↦ h c ⟨.inl hc, hbelow⟩
  · exact fun other hother ↦ Bool.eq_false_iff.2 fun hbelow ↦ h other ⟨.inr hother, hbelow⟩

/-! ## Loading -/

theorem mem_containers_foldl_addNode {found : List (Place × FileNode)} :
    name ∈ (found.foldl (fun s e ↦ s.addNode e.1 e.2) s).containers.toList ↔
      name ∈ s.containers.toList ∨ ∃ e ∈ found, e.2 = .directory ∧ name = Path.ofParts e.1 := by
  refine foldl_iff (P := fun s : AssetStore ↦ name ∈ s.containers.toList)
    (fun s e ↦ ?_) found s
  obtain ⟨place, node⟩ := e
  cases node with
  | directory =>
    have hkeys : name ∈ (s.addNode place .directory).containers.toList ↔
        name ∈ s.containers.toList ∨ name = Path.ofParts place := Table.mem_keys_insert
    simpa using hkeys
  | file bytes => simp [addNode]

/-- A file that was found is an entry, if it is the only one that was found under its name. -/
theorem get?_entries_foldl_addNode {found : List (Place × FileNode)} {bytes : ByteArray}
    (h : ∀ places b places' b', (places, .file b) ∈ found → (places', .file b') ∈ found →
      Path.ofParts places = Path.ofParts places' → b = b') (hs : s.entries.get? name = none) :
    (found.foldl (fun s e ↦ s.addNode e.1 e.2) s).entries.get? name = some bytes ↔
      ∃ place, (place, .file bytes) ∈ found ∧ name = Path.ofParts place := by
  induction found using List.reverseRecOn with
  | nil => simp [hs]
  | append_singleton found e ih =>
    have ih := ih fun places b places' b' hb hb' ↦
      h places b places' b' (List.mem_append_left _ hb) (List.mem_append_left _ hb')
    obtain ⟨place, node⟩ := e
    rw [List.foldl_append, List.foldl_cons, List.foldl_nil]
    generalize found.foldl (fun s e ↦ s.addNode e.1 e.2) s = loaded at ih
    cases node with
    | directory =>
      refine Iff.trans ih ?_
      simp
    | file b =>
      simp only [addNode, Table.get?_insert_eq]
      by_cases hname : name = Path.ofParts place
      · rw [if_pos hname]
        constructor
        · rintro ⟨⟩
          exact ⟨place, by simp, hname⟩
        · rintro ⟨place', hplace', hname'⟩
          rw [h place b place' bytes (by simp) hplace' (hname.symm.trans hname')]
      · rw [if_neg hname, ih]
        refine exists_congr fun place' ↦ and_congr_left fun hname' ↦ ?_
        have hne : place' ≠ place := fun heq ↦ hname (heq ▸ hname')
        simp [hne]

/-- A directory is loaded with a container for every directory below it and an entry for every
file. -/
theorem load_eq_ok (hdir : t.isDirectory root = true)
    (hslash : ∀ names node, names ≠ [] → t.node? (t.placeOf root ++ names) = some node →
      ∀ part ∈ names, '/' ∉ part.toList) :
    ∃ s, load t root = .ok s ∧
      (∀ name, name ∈ s.containers.toList ↔
        t.node? (t.placeOf root ++ Path.parts name) = some .directory) ∧
      ∀ name bytes, s.entries.get? name = some bytes ↔
        t.node? (t.placeOf root ++ Path.parts name) = some (.file bytes) := by
  have hload : load t root = .ok ((t.below (t.placeOf root)).foldl (fun s e ↦ s.addNode e.1 e.2)
      { empty with source := some root }) := by
    simp only [load, hdir, (isDirectory_iff.1 hdir).1]
    rfl
  -- names without slashes are the parts of the path that they make
  have hparts {names : Place} {node : FileNode} (h : (names, node) ∈ t.below (t.placeOf root)) :
      Path.parts (Path.ofParts names) = names := by
    obtain ⟨hne, hnode⟩ := mem_below h
    exact Path.parts_ofParts hne (hslash names node hne hnode)
  have hbelow {node : FileNode} {name : String} :
      (∃ names, (names, node) ∈ t.below (t.placeOf root) ∧ name = Path.ofParts names) ↔
        t.node? (t.placeOf root ++ Path.parts name) = some node := by
    constructor
    · rintro ⟨names, hmem, rfl⟩
      rw [hparts hmem]
      exact (mem_below hmem).2
    · intro hnode
      exact ⟨_, mem_below_iff.2 ⟨Path.parts_ne_nil name, hnode⟩, (Path.ofParts_parts name).symm⟩
  refine ⟨_, hload, fun name ↦ ?_, fun name bytes ↦ ?_⟩
  · rw [mem_containers_foldl_addNode, ← hbelow]
    refine Iff.trans (or_iff_right List.not_mem_nil) ?_
    simp
  · rw [get?_entries_foldl_addNode ?_ rfl, hbelow]
    intro places b places' b' hb hb' hsame
    have hplaces : places = places' := by rw [← hparts hb, hsame, hparts hb']
    have hnode := (mem_below hb).2.symm.trans (hplaces ▸ (mem_below hb').2)
    exact FileNode.file.inj (Option.some.inj hnode)

/-! ## There and back -/

/-- What was written into an empty directory is loaded from it. -/
theorem load_of_fill (ht : t.Empty root) (hs : s.Contained)
    (h : t.perform (s.fill root) = (.ok (), u)) :
    ∃ s', load u root = .ok s' ∧ s'.entries = s.entries ∧
      ∀ name, name ∈ s'.containers.toList ↔ s.Directory name := by
  have hgains := extends_perform t (s.fill root)
  rw [h] at hgains
  have hplace : u.placeOf root = t.placeOf root := placeOf_congr hgains.home_eq root
  have hnode {names : Place} (hne : names ≠ []) := node?_of_fill ht hs h hne
  have hslash : ∀ names node, names ≠ [] → u.node? (u.placeOf root ++ names) = some node →
      ∀ part ∈ names, '/' ∉ part.toList := by
    intro names node hne hsome part hpart
    rw [hplace] at hsome
    have hmem : ∃ name, part ∈ Path.parts name := by
      cases node with
      | directory =>
        rcases (hnode hne).1.1 hsome with ⟨name, -, hlead⟩ | ⟨name, -, hlead⟩
        · exact ⟨name, hlead.subset hpart⟩
        · exact ⟨name, List.dropLast_subset _ (hlead.subset hpart)⟩
      | file bytes =>
        obtain ⟨name, -, rfl⟩ := ((hnode hne).2 bytes).1 hsome
        exact ⟨name, hpart⟩
    obtain ⟨name, hname⟩ := hmem
    exact Path.slash_notMem_of_mem_parts hname
  obtain ⟨s', hload, hcontainers, hentries⟩ := load_eq_ok (hgains.isDirectory ht.directory) hslash
  rw [hplace] at hcontainers hentries
  refine ⟨s', hload, Table.ext_get? fun name ↦ Option.ext fun bytes ↦ ?_, fun name ↦ ?_⟩
  · rw [hentries, (hnode (Path.parts_ne_nil name)).2, Table.get?_eq_some_iff]
    constructor
    · rintro ⟨entry, hentry, hparts⟩
      exact Path.parts_inj.1 hparts ▸ hentry
    · exact fun hentry ↦ ⟨name, hentry, rfl⟩
  · rw [hcontainers, (hnode (Path.parts_ne_nil name)).1, leads_parts_iff]

theorem Contained.isNormal_of_directory (hs : s.Contained) (h : s.Directory name) :
    isNormal name = true := by
  rcases h with h | ⟨k, hk, hbelow⟩
  · exact hs.containers name h
  · obtain ⟨rest, -, hparts⟩ := isBelow_iff.1 hbelow
    have hnormal : isNormal k = true := hk.elim (hs.containers k) (hs.entries k)
    exact isNormal_iff.2 fun part hpart ↦
      isNormal_iff.1 hnormal part (hparts ▸ List.mem_append_left _ hpart)

/-- What a file system takes below a directory it also takes up to there. -/
theorem Accepted.directory (haccepted : s.Accepted root) (hs : s.Contained)
    (h : s.Directory name) : Path.Valid (Path.join root name) := by
  have hname := hs.isNormal_of_directory h
  rcases h with h | ⟨k, hk, hbelow⟩
  · exact haccepted name (.inl h)
  · obtain ⟨rest, hne, hparts⟩ := isBelow_iff.1 hbelow
    obtain ⟨front, -, hjoin⟩ := Path.exists_parts_join root
    have hnormal : isNormal k = true := hk.elim (hs.containers k) (hs.entries k)
    have hgoes : Path.parts (Path.join root k) = Path.parts (Path.join root name) ++ rest := by
      rw [(hjoin k (isAbsolute_eq_false_of_isNormal hnormal)).1,
        (hjoin name (isAbsolute_eq_false_of_isNormal hname)).1, hparts, List.append_assoc]
    have hvalid := haccepted k hk
    rw [Path.exists_eq_append_slash hne hgoes] at hvalid
    obtain ⟨init, last, hlast, hproper⟩ :=
      exists_last_of_isNormal hname (Path.parts_ne_nil name) (List.prefix_refl _)
    refine hvalid.of_append ⟨front ++ init, last, ?_, hproper⟩
    rw [(hjoin name (isAbsolute_eq_false_of_isNormal hname)).1, hlast, List.append_assoc]

/-- A store that has the entries of another one and its directories as containers. -/
structure Completes (s' s : AssetStore) : Prop where
  entries : s'.entries = s.entries
  containers : ∀ name, name ∈ s'.containers.toList ↔ s.Directory name

variable {s' : AssetStore}

/-- Directories of directories are directories already. -/
theorem Completes.directory_iff (h : s'.Completes s) : s'.Directory name ↔ s.Directory name := by
  have htrans {a b c : String} (hab : isBelow a b = true) (hbc : isBelow b c = true) :
      isBelow a c = true := by
    obtain ⟨rest, hne, hb⟩ := isBelow_iff.1 hab
    obtain ⟨rest', -, hc⟩ := isBelow_iff.1 hbc
    exact isBelow_iff.2 ⟨rest ++ rest', by simp [hne], by rw [hc, hb, List.append_assoc]⟩
  constructor
  · rintro (hname | ⟨k, hk | hk, hbelow⟩)
    · exact (h.containers name).1 hname
    · rcases (h.containers k).1 hk with hk | ⟨k', hk', hbelow'⟩
      · exact .inr ⟨k, .inl hk, hbelow⟩
      · exact .inr ⟨k', hk', htrans hbelow hbelow'⟩
    · exact .inr ⟨k, .inr (h.entries ▸ hk), hbelow⟩
  · exact fun hname ↦ .inl ((h.containers name).2 hname)

theorem Completes.housed (h : s'.Completes s) (hs : s.Housed) : s'.Housed where
  containers name hname := hs.isNormal_of_directory ((h.containers name).1 hname)
  entries := by
    rw [h.entries]
    exact hs.entries
  housed := by
    rw [h.entries]
    exact fun name hname ↦ (h.containers _).2 (.inl (hs.housed name hname))

theorem Completes.accepted (h : s'.Completes s) (hs : s.Contained)
    (haccepted : s.Accepted root) : s'.Accepted root := by
  rintro name (hname | hname)
  · exact haccepted.directory hs ((h.containers name).1 hname)
  · exact haccepted name (.inr (h.entries ▸ hname))

theorem Completes.separate (h : s'.Completes s) (hs : s.Separate) : s'.Separate := by
  rw [separate_iff] at hs ⊢
  intro entry hentry
  rw [leads_parts_iff, h.directory_iff, ← leads_parts_iff]
  exact hs entry (h.entries ▸ hentry)

/-- What completes a store that is complete is the same store again. -/
theorem Completes.eq {s'' : AssetStore} (h : s'.Completes s) (h' : s''.Completes s') :
    s''.entries = s'.entries ∧ s''.containers = s'.containers := by
  refine ⟨h'.entries, Names.ext fun name ↦ ?_⟩
  rw [h'.containers, h.directory_iff, h.containers]

/-! ## Saving and loading -/

theorem perform_save {v : FileTree} (h : (makeDirectories root).run t = (.ok (), v)) :
    t.perform (s.save root) = v.perform (s.fill root) := by
  rw [save_eq, perform_cons, act, h]

theorem Housed.exists_save_iff (hs : s.Housed) (hfresh : t.Fresh root)
    (haccepted : s.Accepted root) :
    (∃ u, t.perform (s.save root) = (.ok (), u)) ↔ s.Separate := by
  obtain ⟨v, hmade, hempty⟩ := hfresh
  rw [perform_save hmade, separate_iff]
  exact ⟨fun ⟨_, h⟩ ↦ hs.not_leads_of_perform hempty.closed h (List.Subset.refl _),
    exists_fill hempty hs haccepted⟩

theorem Contained.load_saved (hs : s.Contained) (hfresh : t.Fresh root)
    (h : t.perform (s.save root) = (.ok (), u)) :
    ∃ s', load u root = .ok s' ∧ s'.Completes s := by
  obtain ⟨v, hmade, hempty⟩ := hfresh
  rw [perform_save hmade] at h
  obtain ⟨s', hload, hentries, hcontainers⟩ := load_of_fill hempty hs h
  exact ⟨s', hload, hentries, hcontainers⟩

/-! ## Stores that are built by calls -/

/-- A way to change a store. -/
inductive Call where
  | addContainer (name : String)
  | write (name : String) (bytes : ByteArray)

/-- What a call makes of a store; a failed one leaves it as it is. -/
def Call.apply (s : AssetStore) : Call → AssetStore
  | .addContainer name => s.addContainer name
  | .write name bytes => (s.write name bytes).toOption.getD s

/-- The store that calls make, starting from the empty one. -/
def ofCalls (calls : List Call) : AssetStore := calls.foldl Call.apply empty

/-- Containers are called by normal names. -/
def Normal (calls : List Call) : Prop :=
  ∀ name, .addContainer name ∈ calls → normalize? name = some name

theorem housed_empty : empty.Housed :=
  ⟨⟨fun _ h ↦ absurd h List.not_mem_nil, fun _ h ↦ absurd h List.not_mem_nil⟩,
    fun _ h ↦ absurd h List.not_mem_nil⟩

theorem Housed.addContainer (hs : s.Housed) (hname : isNormal name = true) :
    (s.addContainer name).Housed := by
  refine ⟨⟨fun name' h ↦ ?_, hs.entries⟩, fun entry hentry ↦ ?_⟩
  · rcases Table.mem_keys_insert.1 h with h | rfl
    · exact hs.containers name' h
    · exact hname
  · exact Table.mem_keys_insert.2 (.inl (hs.housed entry hentry))

theorem Housed.write (hs : s.Housed) {bytes : ByteArray} (h : s.write name bytes = .ok s') :
    s'.Housed := by
  obtain ⟨normal, hnormal, hcontainer, rfl⟩ := write_eq_ok_iff.1 h
  refine ⟨⟨hs.containers, fun entry hentry ↦ ?_⟩, fun entry hentry ↦ ?_⟩
  · rcases Table.mem_keys_insert.1 hentry with hentry | rfl
    · exact hs.entries entry hentry
    · exact isNormal_of_normalize? hnormal
  · rcases Table.mem_keys_insert.1 hentry with hentry | rfl
    · exact hs.housed entry hentry
    · exact Table.contains_iff.1 hcontainer

/-- In a store that calls made every entry is in a container, and all names are normal. -/
theorem housed_ofCalls {calls : List Call} (h : Normal calls) : (ofCalls calls).Housed := by
  refine List.foldlRecOn calls _ housed_empty fun s hs call hcall ↦ ?_
  cases call with
  | addContainer name => exact hs.addContainer (isNormal_of_normalize? (h name hcall))
  | write name bytes =>
    rw [Call.apply]
    cases hwrite : s.write name bytes with
    | error fault => exact hs
    | ok s' => exact hs.write hwrite

/-- **A store survives the disk.**  It can be written into a fresh directory exactly if its names
keep apart.  Loading it gives the same entries, and its directories as containers; and writing what
was loaded into another fresh directory and loading it again changes nothing more. -/
theorem load_of_save {calls : List Call} (hnormal : Normal calls) (hfresh : t.Fresh root)
    (haccepted : (ofCalls calls).Accepted root) :
    ((∃ u, t.perform ((ofCalls calls).save root) = (.ok (), u)) ↔ (ofCalls calls).Separate) ∧
      ∀ u, t.perform ((ofCalls calls).save root) = (.ok (), u) →
        ∃ s, load u root = .ok s ∧ s.entries = (ofCalls calls).entries ∧
          (∀ name, name ∈ s.containers.toList ↔ (ofCalls calls).Directory name) ∧
          ∀ (t' : FileTree) (root' : String), t'.Fresh root' →
            (ofCalls calls).Accepted root' →
            ∃ u' s', t'.perform (s.save root') = (.ok (), u') ∧ load u' root' = .ok s' ∧
              s'.entries = s.entries ∧ s'.containers = s.containers := by
  have hs := housed_ofCalls hnormal
  refine ⟨hs.exists_save_iff hfresh haccepted, fun u h ↦ ?_⟩
  obtain ⟨s, hload, hcompletes⟩ := hs.toContained.load_saved hfresh h
  refine ⟨s, hload, hcompletes.entries, hcompletes.containers, fun t' root' hfresh' haccepted' ↦ ?_⟩
  have hseparate := (hs.exists_save_iff hfresh haccepted).1 ⟨u, h⟩
  have hagain := hcompletes.housed hs
  have haccepted' := hcompletes.accepted hs.toContained haccepted'
  obtain ⟨u', h'⟩ := (hagain.exists_save_iff hfresh' haccepted').2
    (hcompletes.separate hseparate)
  obtain ⟨s', hload', hcompletes'⟩ := hagain.toContained.load_saved hfresh' h'
  exact ⟨u', s', h', hload', hcompletes.eq hcompletes'⟩

/-- Calls of which one fails, and which give a container with a slash and an entry two directories
below its container. -/
def nestedCalls : List Call :=
  [.addContainer "song", .addContainer "gear/hats", .write "song/parts\\one/a.json" ⟨#[1, 2]⟩,
    .write "none/b" ⟨#[]⟩, .write "song/c" ⟨#[]⟩, .write "song/c" ⟨#[3]⟩]

/-- These calls, with everything that the theorem says of them. -/
theorem load_of_save_nested :
    Normal nestedCalls ∧ BuildRequest.vacant.Fresh "out/store" ∧
      (ofCalls nestedCalls).Accepted "out/store" ∧
      ∃ u s, BuildRequest.vacant.perform ((ofCalls nestedCalls).save "out/store") = (.ok (), u) ∧
        load u "out/store" = .ok s ∧ s.entries = (ofCalls nestedCalls).entries ∧
        ∀ name ∈ ["gear", "gear/hats", "song", "song/parts"], name ∈ s.containers.toList := by
  have hnormal : Normal nestedCalls := by
    intro name hname
    simp only [nestedCalls, List.mem_cons, List.not_mem_nil, or_false, Call.addContainer.injEq,
      reduceCtorEq] at hname
    rcases hname with rfl | rfl <;> decide
  have hfresh : BuildRequest.vacant.Fresh "out/store" :=
    BuildRequest.fresh_vacant (by decide) (by decide) (by decide)
  have hcontainers : (ofCalls nestedCalls).containers.toList = ["gear/hats", "song"] := by decide
  have hkeys : (ofCalls nestedCalls).entries.keys = ["song/c", "song/parts/one/a.json"] := by decide
  have haccepted : (ofCalls nestedCalls).Accepted "out/store" := by
    intro name hname
    rw [hcontainers, hkeys] at hname
    simp only [List.mem_cons, List.not_mem_nil, or_false] at hname
    rcases hname with (rfl | rfl) | rfl | rfl <;> decide
  obtain ⟨hsaves, hloads⟩ := load_of_save hnormal hfresh haccepted
  have hseparate : (ofCalls nestedCalls).Separate := by
    rw [Separate, hcontainers, hkeys]
    decide
  obtain ⟨u, hu⟩ := hsaves.2 hseparate
  obtain ⟨s, hload, hentries, hdirs, -⟩ := hloads u hu
  refine ⟨hnormal, hfresh, haccepted, u, s, hu, hload, hentries, fun name hname ↦ (hdirs name).2 ?_⟩
  rw [Directory, hcontainers, hkeys]
  simp only [List.mem_cons, List.not_mem_nil, or_false] at hname
  rcases hname with rfl | rfl | rfl | rfl
  · exact .inr ⟨"gear/hats", by decide⟩
  · exact .inl (by decide)
  · exact .inl (by decide)
  · exact .inr ⟨"song/parts/one/a.json", by decide⟩

end AssetStore

end SongBundle
