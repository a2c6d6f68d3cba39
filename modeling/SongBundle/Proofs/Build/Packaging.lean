import SongBundle.Build.Bundle
import SongBundle.Proofs.Outcome
import SongBundle.Proofs.Table

/-!
# When a song can be packaged

An entry can be written where its name has a normal form whose container is there
(`AssetStore.takes`).  Writing does not change the containers, so it can be told from the template
alone whether all entries of a song can be entered into it (`exists_package_iff`).  The bundle then
has the entries of the template and those of the song (`mem_keys_of_writeAll`).
-/

set_option autoImplicit false

namespace SongBundle

namespace AssetStore

variable {s s' : AssetStore} {name : String} {bytes : ByteArray}

/-- Whether a store has a place for an entry of that name. -/
def takes (s : AssetStore) (name : String) : Bool :=
  (EntryName.normalize? name).any fun normal ↦ s.hasContainer (EntryName.container normal)

theorem takes_iff :
    s.takes name = true ↔ ∃ normal, EntryName.normalize? name = some normal ∧
      s.hasContainer (EntryName.container normal) = true := by
  rw [takes, Option.any_eq_true]

theorem require_eq_ok_iff {names : List String} :
    s.require names = .ok () ↔ ∀ name ∈ names, s.hasContainer name = true := by
  rw [require]
  split
  · rename_i name hfind
    have hmissing : s.hasContainer name = false := by simpa using List.find?_some hfind
    refine ⟨fun h ↦ (nomatch h), fun h ↦ ?_⟩
    rw [h name (List.mem_of_find?_eq_some hfind)] at hmissing
    cases hmissing
  · rename_i hfind
    simpa using hfind

theorem write_eq_ok_iff :
    s.write name bytes = .ok s' ↔
      ∃ normal, EntryName.normalize? name = some normal ∧
        s.hasContainer (EntryName.container normal) = true ∧
        s' = { s with entries := s.entries.insert normal bytes } := by
  rw [write, Outcome.bind_eq_ok_iff]
  constructor
  · rintro ⟨normal, hnormal, hwrite⟩
    rw [EntryName.normalize] at hnormal
    split at hnormal
    · rename_i normal' hnormal'
      cases hnormal
      dsimp only at hwrite
      split at hwrite
      · rename_i hcontainer
        exact ⟨normal, hnormal', hcontainer, (Except.ok.inj hwrite).symm⟩
      · cases hwrite
    · cases hnormal
  · rintro ⟨normal, hnormal, hcontainer, rfl⟩
    exact ⟨normal, by rw [EntryName.normalize, hnormal], if_pos hcontainer⟩

theorem exists_write_iff : (∃ s', s.write name bytes = .ok s') ↔ s.takes name = true := by
  rw [takes_iff]
  constructor
  · rintro ⟨s', h⟩
    obtain ⟨normal, hnormal, hcontainer, -⟩ := write_eq_ok_iff.1 h
    exact ⟨normal, hnormal, hcontainer⟩
  · rintro ⟨normal, hnormal, hcontainer⟩
    exact ⟨_, write_eq_ok_iff.2 ⟨normal, hnormal, hcontainer, rfl⟩⟩

/-- After an entry is written there are places for the same names. -/
theorem takes_of_write (h : s.write name bytes = .ok s') (name' : String) :
    s'.takes name' = s.takes name' := by
  obtain ⟨normal, -, -, rfl⟩ := write_eq_ok_iff.1 h
  rfl

end AssetStore

namespace CompiledSong

variable {template : AssetStore}

theorem writeAll_cons_eq_ok_iff {e : String × Json} {entries : List (String × Json)}
    {bundle : AssetStore} :
    writeAll template (e :: entries) = .ok bundle ↔
      ∃ next, template.writeJson e.1 e.2 = .ok next ∧ writeAll next entries = .ok bundle :=
  Outcome.foldlM_cons_eq_ok_iff

theorem exists_writeAll_iff {entries : List (String × Json)} :
    (∃ bundle, writeAll template entries = .ok bundle) ↔
      ∀ e ∈ entries, template.takes e.1 = true := by
  induction entries generalizing template with
  | nil => exact ⟨fun _ _ h ↦ (nomatch h), fun _ ↦ ⟨template, rfl⟩⟩
  | cons e entries ih =>
    rw [List.forall_mem_cons]
    simp only [writeAll_cons_eq_ok_iff]
    constructor
    · rintro ⟨bundle, next, hwrite, hrest⟩
      have htakes := ih.1 ⟨bundle, hrest⟩
      simp only [AssetStore.takes_of_write hwrite] at htakes
      exact ⟨AssetStore.exists_write_iff.1 ⟨next, hwrite⟩, htakes⟩
    · rintro ⟨hfirst, htakes⟩
      obtain ⟨next, hwrite⟩ := AssetStore.exists_write_iff.2 hfirst
      obtain ⟨bundle, hrest⟩ := ih.2 fun e he ↦
        (AssetStore.takes_of_write hwrite e.1).trans (htakes e he)
      exact ⟨bundle, next, hwrite, hrest⟩

theorem containers_of_writeAll {entries : List (String × Json)} {bundle : AssetStore}
    (h : writeAll template entries = .ok bundle) : bundle.containers = template.containers := by
  induction entries generalizing template with
  | nil => exact congrArg AssetStore.containers (Except.ok.inj h).symm
  | cons e entries ih =>
    obtain ⟨next, hwrite, hrest⟩ := writeAll_cons_eq_ok_iff.1 h
    obtain ⟨normal, -, -, rfl⟩ := AssetStore.write_eq_ok_iff.1 hwrite
    exact (ih hrest).trans rfl

theorem mem_keys_of_writeAll {entries : List (String × Json)} {bundle : AssetStore}
    (h : writeAll template entries = .ok bundle) {name : String} :
    name ∈ bundle.entries.keys ↔
      name ∈ template.entries.keys ∨ ∃ e ∈ entries, EntryName.normalize? e.1 = some name := by
  induction entries generalizing template with
  | nil =>
    obtain rfl : template = bundle := Except.ok.inj h
    simp
  | cons e entries ih =>
    obtain ⟨next, hwrite, hrest⟩ := writeAll_cons_eq_ok_iff.1 h
    obtain ⟨normal, hnormal, -, rfl⟩ := AssetStore.write_eq_ok_iff.1 hwrite
    rw [ih hrest, Table.mem_keys_insert, List.exists_mem_cons_iff, hnormal, Option.some_inj,
      or_assoc, eq_comm]

/-- An entry of a bundle is the last one that was written under its name, or else the template's. -/
theorem get?_writeAll {entries : List (String × Json)} {bundle : AssetStore}
    (h : writeAll template entries = .ok bundle) (name : String) :
    bundle.entries.get? name =
      ((entries.reverse.find? fun e ↦ EntryName.normalize? e.1 = some name).map
        fun e ↦ e.2.pretty.toUTF8).or (template.entries.get? name) := by
  induction entries generalizing template with
  | nil =>
    obtain rfl : template = bundle := Except.ok.inj h
    rfl
  | cons e entries ih =>
    obtain ⟨next, hwrite, hrest⟩ := writeAll_cons_eq_ok_iff.1 h
    obtain ⟨normal, hnormal, -, rfl⟩ := AssetStore.write_eq_ok_iff.1 hwrite
    rw [ih hrest, Table.get?_insert_eq, List.reverse_cons, List.find?_append]
    simp only [List.find?_singleton, hnormal, Option.some.injEq, decide_eq_true_eq,
      @eq_comm _ name normal]
    by_cases hname : normal = name
    · cases entries.reverse.find? fun e ↦ EntryName.normalize? e.1 = some name <;> simp [hname]
    · cases entries.reverse.find? fun e ↦ EntryName.normalize? e.1 = some name <;> simp [hname]

/-- What is written under a name that no other entry takes is what the bundle holds there. -/
theorem get?_of_writeAll {entries : List (String × Json)} {bundle : AssetStore}
    (h : writeAll template entries = .ok bundle) {e : String × Json} {name : String}
    (he : e ∈ entries) (hname : EntryName.normalize? e.1 = some name)
    (hunique : ∀ e' ∈ entries, EntryName.normalize? e'.1 = some name → e'.2 = e.2) :
    bundle.entries.get? name = some e.2.pretty.toUTF8 := by
  obtain ⟨e', hfind⟩ :
      ∃ e', (entries.reverse.find? fun e ↦ EntryName.normalize? e.1 = some name) = some e' := by
    rw [← Option.isSome_iff_exists, List.find?_isSome]
    exact ⟨e, List.mem_reverse.2 he, by simpa using hname⟩
  have hmem := List.mem_reverse.1 (List.mem_of_find?_eq_some hfind)
  have hsame := hunique e' hmem (by simpa using List.find?_some hfind)
  rw [get?_writeAll h, hfind, Option.map_some, hsame, Option.some_or]

theorem package_eq_ok_iff {s : CompiledSong} {o : BuildOutput} :
    s.package template = .ok o ↔ template.require AssetStore.requiredContainers = .ok () ∧
      writeAll template s.entries = .ok o.bundle ∧ o.midi = s.timing.midi := by
  simp only [package, Outcome.bind_eq_ok_iff, Outcome.pure_eq_ok_iff, Outcome.mapError_eq_ok_iff]
  constructor
  · rintro ⟨⟨⟩, hrequire, bundle, hwrite, rfl⟩
    exact ⟨hrequire, hwrite, rfl⟩
  · rintro ⟨hrequire, hwrite, hmidi⟩
    exact ⟨(), hrequire, o.bundle, hwrite, hmidi ▸ rfl⟩

theorem writeAll_of_package {s : CompiledSong} {o : BuildOutput}
    (h : s.package template = .ok o) : writeAll template s.entries = .ok o.bundle :=
  (package_eq_ok_iff.1 h).2.1

/-- A song can be packaged if the template has what it needs. -/
theorem exists_package_iff {s : CompiledSong} :
    (∃ o, s.package template = .ok o) ↔
      (∀ name ∈ AssetStore.requiredContainers, template.hasContainer name = true) ∧
        ∀ e ∈ s.entries, template.takes e.1 = true := by
  simp only [package_eq_ok_iff]
  rw [← AssetStore.require_eq_ok_iff, ← exists_writeAll_iff]
  constructor
  · rintro ⟨o, hrequire, hwrite, -⟩
    exact ⟨hrequire, o.bundle, hwrite⟩
  · rintro ⟨hrequire, bundle, hwrite⟩
    exact ⟨⟨bundle, s.timing.midi⟩, hrequire, hwrite, rfl⟩

end CompiledSong

end SongBundle
