import Mathlib.Data.List.Perm.Basic
import SongBundle.Proofs.Build.Naming

/-!
# What is in a bundle

A song is entered into a template.  The bundle has an entry for each part of the song, all of them
under names of their own, and what else the template has stays as it was.

* `WellNamed` is what the sequences of a song have to be called, and `takes_entries_iff` says that a
  template with the containers of every bundle then has a place for all entries, and only then.
* `Packaged` is what a bundle has to be.
* `package_bundles` says when there is a bundle, and that it is that.
-/

set_option autoImplicit false

namespace SongBundle.CompiledSong

open EntryName

variable {s : CompiledSong} {template : AssetStore} {o : BuildOutput}

/-- No sequence has a name with a piece in the middle that leads nowhere. -/
def WellNamed (s : CompiledSong) : Prop :=
  ∀ e ∈ s.sequences.toList, ∀ q ∈ e.2, ∀ piece ∈ innerPieces q.name,
    piece ≠ "" ∧ piece ≠ "." ∧ piece ≠ ".."

/-- What is made of a template and a song. -/
structure Packaged (s : CompiledSong) (template : AssetStore) (o : BuildOutput) : Prop where
  normalize?_eq : ∀ e ∈ s.entries, normalize? e.1 = some (withSlashes e.1)
  nodup : s.storedNames.Nodup
  graph : o.bundle.read? "moves/graph.json" = some s.graph.toJson.pretty.toUTF8
  battle : o.bundle.read? "battle/steps.json" =
    some (Json.ofList Battle.Step.toJson s.battle).pretty.toUTF8
  partyJumps : o.bundle.read? "partyjump/intervals.json" =
    some (Json.ofList PartyJump.Interval.toJson s.partyJumps).pretty.toUTF8
  plans : ∀ e ∈ s.practice.toList,
    o.bundle.read? (levelEntry "practice" e.1) = some e.2.toJson.pretty.toUTF8
  sequences : ∀ e ∈ s.sequences.toList, ∀ i q, e.2[i]? = some q →
    o.bundle.read? (withSlashes (sequenceEntry e.1 i q)) = some q.toJson.pretty.toUTF8
  anims : ∀ e ∈ s.anims.toList,
    o.bundle.read? (levelEntry "anims" e.1) = some e.2.toJson.pretty.toUTF8
  manifest : o.bundle.read? "song/manifest.json" = some s.manifest.toJson.pretty.toUTF8
  /-- What has another name is as it was in the template. -/
  read?_eq : ∀ name ∉ s.storedNames, o.bundle.read? name = template.read? name
  containers_eq : o.bundle.containers = template.containers
  /-- The entries of the template are joined by those of the song that it did not have. -/
  size_eq : o.bundle.size =
    template.size + (s.storedNames.filter fun name ↦ !template.entries.contains name).length
  midi_eq : o.midi = s.timing.midi

/-! ## Places for entries -/

theorem container_plainNames_required :
    ∀ name ∈ plainNames, container name ∈ AssetStore.requiredContainers := by decide

/-- A template that has the containers has a place for what is no sequence. -/
theorem takes_plainEntries
    (hrequired : ∀ name ∈ AssetStore.requiredContainers, template.hasContainer name = true)
    {e : String × Json} (he : e ∈ s.plainEntries) : template.takes e.1 = true := by
  have hname := mem_plainNames_of_mem_plainEntries he
  exact AssetStore.takes_iff.2 ⟨e.1, normalize?_plainNames _ hname,
    hrequired _ (container_plainNames_required _ hname)⟩

theorem takes_entries_iff
    (hrequired : ∀ name ∈ AssetStore.requiredContainers, template.hasContainer name = true) :
    (∀ e ∈ s.entries, template.takes e.1 = true) ↔ s.WellNamed := by
  have hcontainer : template.hasContainer "sequences" = true := hrequired _ (by decide)
  constructor
  · intro htakes part hpart q hq piece hpiece
    obtain ⟨i, hi⟩ := List.mem_iff_getElem?.1 hq
    have hplace := htakes _ (sequenceEntry_mem_entries hpart hi)
    exact isProper_iff.1 ((takes_sequenceEntry_iff hcontainer).1 hplace piece hpiece)
  · intro hnamed e he
    rcases mem_entries_iff.1 he with he | ⟨part, hpart, he⟩
    · exact takes_plainEntries hrequired he
    · obtain ⟨i, q, hi, rfl⟩ := mem_sequenceEntries_iff.1 he
      refine (takes_sequenceEntry_iff hcontainer).2 fun piece hpiece ↦ ?_
      exact isProper_iff.2 (hnamed part hpart q (List.mem_of_getElem? hi) piece hpiece)

/-! ## Bundles -/

/-- What is not written is the template's. -/
theorem read?_of_notMem_storedNames (h : s.package template = .ok o) {name : String}
    (hname : name ∉ s.storedNames) : o.bundle.read? name = template.read? name := by
  have hfind : (s.entries.reverse.find? fun e ↦ normalize? e.1 = some name) = none := by
    refine List.find?_eq_none.2 fun e he hsame ↦ hname ?_
    rw [← (normalize?_eq_some_iff.1 (of_decide_eq_true hsame)).2]
    exact List.mem_map_of_mem (List.mem_reverse.1 he)
  rw [AssetStore.read?, get?_writeAll (writeAll_of_package h), hfind]
  rfl

/-- The names in a bundle are those of the template and the ones that are new. -/
theorem perm_keys_of_package (h : s.package template = .ok o) :
    o.bundle.entries.keys.Perm (template.entries.keys ++
      s.storedNames.filter fun name ↦ !template.entries.contains name) := by
  have hnew : (template.entries.keys ++
      s.storedNames.filter fun name ↦ !template.entries.contains name).Nodup := by
    refine List.nodup_append'.2 ⟨template.entries.nodup_keys, s.nodup_storedNames.filter _, ?_⟩
    intro name hname hfilter
    have hmissing := (List.mem_filter.1 hfilter).2
    rw [Table.contains_iff.2 hname] at hmissing
    cases hmissing
  rw [List.perm_ext_iff_of_nodup o.bundle.entries.nodup_keys hnew]
  intro name
  have hstored : (∃ e ∈ s.entries, normalize? e.1 = some name) ↔ name ∈ s.storedNames := by
    rw [storedNames, List.mem_map]
    refine exists_congr fun e ↦ and_congr_right fun he ↦ ?_
    rw [normalize?_of_mem_entries h he, Option.some.injEq]
  rw [mem_keys_of_writeAll (writeAll_of_package h), hstored, List.mem_append, List.mem_filter,
    Bool.not_eq_true', ← Bool.not_eq_true, Table.contains_iff]
  -- a name that both have is counted with the template
  by_cases hold : name ∈ template.entries.keys <;> simp [hold]

theorem packaged_of_package (h : s.package template = .ok o) : s.Packaged template o := by
  refine ⟨fun e ↦ normalize?_of_mem_entries h, s.nodup_storedNames, ?_, ?_, ?_, fun e he ↦ ?_,
    fun e he i q hq ↦ ?_, fun e he ↦ ?_, ?_, fun name ↦ read?_of_notMem_storedNames h,
    containers_of_writeAll (writeAll_of_package h), ?_, ?_⟩
  · exact read?_of_mem_plainEntries h (by simp [plainEntries])
  · exact read?_of_mem_plainEntries h (by simp [plainEntries])
  · exact read?_of_mem_plainEntries h (by simp [plainEntries])
  · refine read?_of_mem_plainEntries h ?_
    simp only [plainEntries, List.mem_append, List.mem_map]
    exact .inl (.inl (.inr ⟨e, he, rfl⟩))
  · exact read?_of_mem_entries h (sequenceEntry_mem_entries he hq)
  · refine read?_of_mem_plainEntries h ?_
    simp only [plainEntries, List.mem_append, List.mem_map]
    exact .inl (.inr ⟨e, he, rfl⟩)
  · exact read?_of_mem_plainEntries h (by simp [plainEntries])
  · have hlength := (perm_keys_of_package h).length_eq
    rwa [List.length_append, Table.keys, Table.keys, List.length_map, List.length_map] at hlength
  · exact (package_eq_ok_iff.1 h).2.2

/-- **A song is packaged, and nothing else is touched.**  There is a bundle exactly if the template
has the containers of every bundle and no sequence has a name with a piece in the middle that leads
nowhere.  The parts of the song then have entries of their own, however many sequences there are and
whatever they are called, and all other entries and the containers are the template's. -/
theorem package_bundles (s : CompiledSong) (template : AssetStore) :
    ((∃ o, s.package template = .ok o) ↔
      (∀ name ∈ AssetStore.requiredContainers, template.hasContainer name = true) ∧
        s.WellNamed) ∧
    ∀ o, s.package template = .ok o → s.Packaged template o := by
  refine ⟨?_, fun o ↦ packaged_of_package⟩
  rw [exists_package_iff]
  exact and_congr_right takes_entries_iff

/-- A song without plans whose sequences have the given names. -/
def sequencesNamed (names : List String) : CompiledSong where
  graph := .empty
  battle := []
  partyJumps := []
  practice := .empty
  sequences := .ofList [(.easy, names.map fun name ↦ ⟨name, .default, []⟩)]
  anims := .empty
  timing := ⟨⟨"tempo", []⟩, ⟨"markers", []⟩, ⟨"drums", []⟩⟩
  manifest := ⟨⟨"gonow", "", "", 0, 0, 0, "", [], "", none⟩, .none, 1, [], []⟩

theorem wellNamed_sequencesNamed_iff {names : List String} :
    (sequencesNamed names).WellNamed ↔ ∀ name ∈ names, ∀ piece ∈ innerPieces name,
      piece ≠ "" ∧ piece ≠ "." ∧ piece ≠ ".." := by
  have hlist : (sequencesNamed names).sequences.toList =
    [(.easy, names.map fun name ↦ ⟨name, .default, []⟩)] := rfl
  rw [WellNamed, hlist, List.forall_mem_singleton, List.forall_mem_map]

/-- Two names alike, and some with slashes where they do no harm. -/
def harmless : List String := ["wave/and\\hop", "wave/and\\hop", "../", "", "\\.."]

/-- A template with an entry that every song replaces, and one that none does. -/
def furnished : AssetStore :=
  { AssetStore.withContainers AssetStore.requiredContainers with
    entries := .ofList [("moves/graph.json", .empty), ("moves/notes.txt", .empty)] }

theorem package_bundles_harmless :
    (∃ o, (sequencesNamed harmless).package furnished = .ok o ∧
      (sequencesNamed harmless).Packaged furnished o) ∧
    ¬∃ o, (sequencesNamed ["wave/./hop"]).package furnished = .ok o := by
  constructor
  · obtain ⟨hiff, hpackaged⟩ := package_bundles (sequencesNamed harmless) furnished
    obtain ⟨o, ho⟩ := hiff.2 ⟨by decide, wellNamed_sequencesNamed_iff.2 (by decide)⟩
    exact ⟨o, ho, hpackaged o ho⟩
  · rw [(package_bundles _ furnished).1, wellNamed_sequencesNamed_iff]
    decide

end SongBundle.CompiledSong
