import Mathlib.Data.List.Dedup
import SongBundle.Proofs.Assets.RoundTrip
import SongBundle.Proofs.Build.Naming
import SongBundle.Proofs.Text.ByteOrder

/-!
# What a store holds after any calls

Entries are written under the normal form of a name, while reading and listing take names as they
are.  `AssetStore.written` lists what calls write, each piece of bytes under its normal name;
failing calls write nothing.  Whatever containers a store has at first and gets later, it is the map
that this list fills (`entries_afterCalls`), and its names are in a form that reading and listing
understand (`stored_afterCalls`).  A write succeeds exactly if its name leads into a container
(`takes_iff_pieces`).  `AssetStore.refines_afterCalls` puts these together.
-/

set_option autoImplicit false

namespace SongBundle

open EntryName

namespace EntryName

/-! ## Normal forms -/

theorem normalize_eq_ok_iff {name normal : String} :
    normalize name = .ok normal ↔ normalize? name = some normal := by
  rw [normalize]
  cases normalize? name <;> simp

theorem backslash_notMem_withSlashes (name : String) : '\\' ∉ (withSlashes name).toList := by
  rw [withSlashes, String.toList_ofList, List.mem_map]
  rintro ⟨c, -, hc⟩
  split_ifs at hc with hslash
  · cases hc
  · exact hslash hc

theorem withSlashes_eq_self {name : String} (h : '\\' ∉ name.toList) : withSlashes name = name := by
  have hmap : (name.toList.map fun c ↦ if c = '\\' then '/' else c) = name.toList.map id :=
    List.map_congr_left fun c hc ↦ if_neg (ne_of_mem_of_not_mem hc h)
  rw [withSlashes, hmap, List.map_id, String.ofList_toList]

/-- A name as entries have it in a store with certain containers. -/
structure Stored (containers : Names) (name : String) : Prop where
  ne_empty : name ≠ ""
  no_backslash : '\\' ∉ name.toList
  proper : ∀ segment ∈ Path.parts name, segment ≠ "" ∧ segment ≠ "." ∧ segment ≠ ".."
  /-- The first segment is a container. -/
  housed : ∃ first rest, Path.parts name = first :: rest ∧ first ∈ containers.toList
  normalize_eq : normalize name = .ok name

theorem stored_of_normalize? {containers : Names} {name normal : String}
    (h : normalize? name = some normal) (hcontainer : container normal ∈ containers.toList) :
    Stored containers normal := by
  have hnormal := isNormal_of_normalize? h
  have hbackslash : '\\' ∉ normal.toList := by
    obtain ⟨-, rfl⟩ := normalize?_eq_some_iff.1 h
    exact backslash_notMem_withSlashes name
  refine ⟨?_, hbackslash, fun segment hsegment ↦ ?_, ?_, ?_⟩
  · rintro rfl
    exact absurd hnormal (by decide)
  · exact isProper_iff.1 (isNormal_iff.1 hnormal segment hsegment)
  · obtain ⟨first, rest, hparts⟩ := List.exists_cons_of_ne_nil (Path.parts_ne_nil normal)
    rw [container, hparts] at hcontainer
    exact ⟨first, rest, hparts, hcontainer⟩
  · rw [normalize_eq_ok_iff, normalize?, withSlashes_eq_self hbackslash]
    exact if_pos hnormal

theorem Stored.mono {containers containers' : Names} {name : String} (h : Stored containers name)
    (hsub : containers.toList ⊆ containers'.toList) : Stored containers' name where
  __ := h
  housed :=
    let ⟨first, rest, hparts, hmem⟩ := h.housed
    ⟨first, rest, hparts, hsub hmem⟩

end EntryName

namespace AssetStore

variable {s : AssetStore}

/-! ## What calls write -/

/-- The store that calls make of one that has certain containers and no entries. -/
def afterCalls (names : List String) (calls : List Call) : AssetStore :=
  calls.foldl Call.apply (withContainers names)

/-- What a call writes: bytes under the normal form of a name, or nothing if the call fails. -/
def Call.written? (s : AssetStore) : Call → Option (String × ByteArray)
  | .addContainer _ => none
  | .write name bytes =>
    match s.write name bytes, normalize name with
    | .ok _, .ok normal => some (normal, bytes)
    | _, _ => none

/-- What calls write, first to last. -/
def written (s : AssetStore) : List Call → List (String × ByteArray)
  | [] => []
  | c :: calls => (c.written? s).toList ++ written (c.apply s) calls

theorem Call.entries_apply (c : Call) :
    (c.apply s).entries = s.entries.insertAll (c.written? s).toList := by
  cases c with
  | addContainer name => rfl
  | write name bytes =>
    rw [Call.apply, Call.written?]
    cases hwrite : s.write name bytes with
    | error fault => rfl
    | ok s' =>
      obtain ⟨normal, hnormal, -, rfl⟩ := write_eq_ok_iff.1 hwrite
      rw [normalize_eq_ok_iff.2 hnormal]
      rfl

theorem entries_foldl_apply (s : AssetStore) (calls : List Call) :
    (calls.foldl Call.apply s).entries = s.entries.insertAll (written s calls) := by
  induction calls generalizing s with
  | nil => rfl
  | cons c calls ih =>
    rw [List.foldl_cons, ih, c.entries_apply, written, Table.insertAll, Table.insertAll,
      Table.insertAll, List.foldl_append]

theorem entries_withContainers (names : List String) :
    (withContainers names).entries = .empty :=
  List.foldlRecOn (motive := fun s : AssetStore ↦ s.entries = Table.empty) names addContainer rfl
    fun _ h _ _ ↦ h

/-- The entries are those that were written last under their names. -/
theorem entries_afterCalls (names : List String) (calls : List Call) :
    (afterCalls names calls).entries = .ofList (written (withContainers names) calls) := by
  rw [afterCalls, entries_foldl_apply, entries_withContainers, Table.ofList]

/-- A call keeps the names of the entries as they should be. -/
theorem Call.stored_apply (c : Call) (hs : ∀ name ∈ s.entries.keys, Stored s.containers name) :
    ∀ name ∈ (c.apply s).entries.keys, Stored (c.apply s).containers name := by
  cases c with
  | addContainer container =>
    exact fun name hname ↦ (hs name hname).mono fun _ h ↦ Table.mem_keys_insert.2 (.inl h)
  | write name bytes =>
    rw [Call.apply]
    cases hwrite : s.write name bytes with
    | error fault => exact hs
    | ok s' =>
      obtain ⟨normal, hnormal, hcontainer, rfl⟩ := write_eq_ok_iff.1 hwrite
      intro name' hname'
      rcases Table.mem_keys_insert.1 hname' with hname' | rfl
      · exact hs name' hname'
      · exact stored_of_normalize? hnormal (Table.contains_iff.1 hcontainer)

/-- Every entry has a name as entries should have. -/
theorem stored_afterCalls (names : List String) (calls : List Call) :
    ∀ name ∈ (afterCalls names calls).entries.keys,
      Stored (afterCalls names calls).containers name := by
  refine List.foldlRecOn
    (motive := fun s ↦ ∀ name ∈ s.entries.keys, Stored s.containers name) calls Call.apply ?_
    fun s hs c _ ↦ c.stored_apply hs
  rw [entries_withContainers]
  exact fun _ h ↦ absurd h List.not_mem_nil

/-! ## Containers and writes -/

theorem mem_containers_withContainers {names : List String} {name : String} :
    name ∈ (withContainers names).containers.toList ↔ name ∈ names := by
  refine (foldl_iff (P := fun s : AssetStore ↦ name ∈ s.containers.toList)
    (fun _ _ ↦ Table.mem_keys_insert) names empty).trans ?_
  exact (or_iff_right List.not_mem_nil).trans exists_eq_right'

theorem Call.containers_apply (c : Call) {name : String} :
    name ∈ (c.apply s).containers.toList ↔
      name ∈ s.containers.toList ∨ c = .addContainer name := by
  cases c with
  | addContainer container =>
    refine Table.mem_keys_insert.trans (or_congr_right ?_)
    rw [addContainer.injEq, eq_comm]
  | write entry bytes =>
    rw [or_iff_left nofun, Call.apply]
    cases hwrite : s.write entry bytes with
    | error fault => rfl
    | ok s' =>
      obtain ⟨-, -, -, rfl⟩ := write_eq_ok_iff.1 hwrite
      rfl

/-- The containers are those that were there at first and those that calls added. -/
theorem mem_containers_afterCalls {names : List String} {calls : List Call} {name : String} :
    name ∈ (afterCalls names calls).containers.toList ↔
      name ∈ names ∨ .addContainer name ∈ calls := by
  refine (foldl_iff (P := fun s : AssetStore ↦ name ∈ s.containers.toList)
    (fun s c ↦ c.containers_apply) calls (withContainers names)).trans ?_
  exact or_congr mem_containers_withContainers exists_eq_right

/-- A name has a place if none of its pieces leads elsewhere and the first one is a container. -/
theorem takes_iff_pieces {name : String} :
    s.takes name = true ↔
      (∀ piece ∈ pieces name, piece ≠ "" ∧ piece ≠ "." ∧ piece ≠ "..") ∧
        ∃ first rest, pieces name = first :: rest ∧ first ∈ s.containers.toList := by
  have hfirst : s.hasContainer (container (withSlashes name)) = true ↔
      ∃ first rest, pieces name = first :: rest ∧ first ∈ s.containers.toList := by
    obtain ⟨first, rest, hparts⟩ := List.exists_cons_of_ne_nil (Path.parts_ne_nil (withSlashes name))
    rw [← parts_withSlashes, hparts, container, hparts]
    refine Table.contains_iff.trans ?_
    simp [Names.toList]
  rw [← hfirst, takes_iff]
  simp only [normalize?_eq_some_iff, isProper_iff]
  constructor
  · rintro ⟨_, ⟨hproper, rfl⟩, hcontainer⟩
    exact ⟨hproper, hcontainer⟩
  · rintro ⟨hproper, hcontainer⟩
    exact ⟨_, ⟨hproper, rfl⟩, hcontainer⟩

theorem afterCalls_concat (names : List String) (calls : List Call) (c : Call) :
    afterCalls names (calls ++ [c]) = c.apply (afterCalls names calls) := by
  rw [afterCalls, List.foldl_concat, ← afterCalls]

/-- A write that succeeds is read under the name with slashes, and changes nothing else. -/
theorem read?_of_write {s' : AssetStore} {name : String} {bytes : ByteArray}
    (h : s.write name bytes = .ok s') :
    s'.read? (withSlashes name) = some bytes ∧
      (∀ other ≠ withSlashes name, s'.read? other = s.read? other) ∧
      s'.containers = s.containers := by
  obtain ⟨normal, hnormal, -, rfl⟩ := write_eq_ok_iff.1 h
  obtain rfl := (normalize?_eq_some_iff.1 hnormal).2
  refine ⟨?_, fun other hother ↦ ?_, rfl⟩
  · rw [read?, Table.get?_insert_eq, if_pos rfl]
  · rw [read?, Table.get?_insert_eq, if_neg hother, read?]

/-! ## Names of entries -/

theorem read?_eq_none_iff {name : String} : s.read? name = none ↔ name ∉ s.entries.keys := by
  rw [Table.mem_keys_iff, read?, Option.eq_none_iff_forall_ne_some, not_exists]

theorem mem_keys_afterCalls {names : List String} {calls : List Call} {name : String} :
    name ∈ (afterCalls names calls).entries.keys ↔
      ∃ e ∈ written (withContainers names) calls, name = e.1 := by
  rw [entries_afterCalls, Table.mem_keys_ofList]

/-- An entry stands for all that was written under its name. -/
theorem perm_keys_afterCalls (names : List String) (calls : List Call) :
    (afterCalls names calls).entries.keys.Perm
      ((written (withContainers names) calls).map Prod.fst).dedup := by
  refine (List.perm_ext_iff_of_nodup (Table.nodup_keys _) (List.nodup_dedup _)).2 fun name ↦ ?_
  rw [mem_keys_afterCalls, List.mem_dedup, List.mem_map]
  exact exists_congr fun e ↦ and_congr_right fun _ ↦ eq_comm

/-! ## Listing -/

theorem mem_list_iff {c name : String} (hc : '/' ∉ c.toList) :
    name ∈ s.list c ↔ name ∈ s.entries.keys ∧ ∃ rest, rest ≠ [] ∧ Path.parts name = c :: rest := by
  rw [list, List.mem_filter, isBelow_iff, Path.parts_eq_singleton hc]
  rfl

theorem pairwise_list (s : AssetStore) (c : String) :
    (s.list c).Pairwise fun a b ↦ bytesOf a < bytesOf b := by
  refine (s.entries.pairwise_keys.filter _).imp fun {a b} h ↦ bytesOf_lt_iff.2 ?_
  exact compareOfLessAndEq_eq_lt.1 h

/-- An entry is listed below one container only. -/
theorem disjoint_list {c c' : String} (hc : '/' ∉ c.toList) (hc' : '/' ∉ c'.toList)
    (hne : c ≠ c') : (s.list c).Disjoint (s.list c') := by
  intro name hname hname'
  obtain ⟨-, rest, -, hparts⟩ := (mem_list_iff hc).1 hname
  obtain ⟨-, rest', -, hparts'⟩ := (mem_list_iff hc').1 hname'
  exact hne (List.cons.inj (hparts.symm.trans hparts')).1

/-! ## Stores as maps -/

/-- A store is the map that calls fill. -/
structure Refines (names : List String) (calls : List Call) : Prop where
  /-- What is read is what was written last under that name. -/
  read_some : ∀ name bytes, (afterCalls names calls).read? name = some bytes ↔
    ∃ before after, written (withContainers names) calls = before ++ (name, bytes) :: after ∧
      ∀ e ∈ after, e.1 ≠ name
  read_none : ∀ name, (afterCalls names calls).read? name = none ↔
    ∀ e ∈ written (withContainers names) calls, e.1 ≠ name
  read_backslash : ∀ name, '\\' ∈ name.toList → (afterCalls names calls).read? name = none
  /-- The containers are those that were there at first and those that were added. -/
  mem_containers_iff : ∀ name, name ∈ (afterCalls names calls).containers.toList ↔
    name ∈ names ∨ .addContainer name ∈ calls
  /-- A write succeeds if no piece of its name leads elsewhere and the first one is a container. -/
  exists_write_iff : ∀ name bytes, (∃ s, (afterCalls names calls).write name bytes = .ok s) ↔
    (∀ piece ∈ pieces name, piece ≠ "" ∧ piece ≠ "." ∧ piece ≠ "..") ∧
      ∃ first rest, pieces name = first :: rest ∧
        first ∈ (afterCalls names calls).containers.toList
  /-- A write that succeeds is read under the name with slashes, and changes nothing else. -/
  succeeded : ∀ name bytes s, (afterCalls names calls).write name bytes = .ok s →
    afterCalls names (calls ++ [.write name bytes]) = s ∧
      s.read? (withSlashes name) = some bytes ∧
      (∀ other ≠ withSlashes name, s.read? other = (afterCalls names calls).read? other) ∧
      s.containers = (afterCalls names calls).containers
  failed : ∀ name bytes fault, (afterCalls names calls).write name bytes = .error fault →
    afterCalls names (calls ++ [.write name bytes]) = afterCalls names calls
  stored : ∀ name ∈ (afterCalls names calls).entries.keys,
    Stored (afterCalls names calls).containers name
  size_eq : (afterCalls names calls).size =
    ((written (withContainers names) calls).map Prod.fst).dedup.length
  mem_list : ∀ c, '/' ∉ c.toList → ∀ name, name ∈ (afterCalls names calls).list c ↔
    name ∈ (afterCalls names calls).entries.keys ∧
      ∃ rest, rest ≠ [] ∧ Path.parts name = c :: rest
  ascending : ∀ c, ((afterCalls names calls).list c).Pairwise fun a b ↦ bytesOf a < bytesOf b
  disjoint : ∀ c c', '/' ∉ c.toList → '/' ∉ c'.toList → c ≠ c' →
    ((afterCalls names calls).list c).Disjoint ((afterCalls names calls).list c')

/-- **A store is a map.**  Whatever containers it has at first and whatever calls are made, its
entries are what the calls that succeeded wrote last under the normal forms of their names. -/
theorem refines_afterCalls (names : List String) (calls : List Call) : Refines names calls := by
  have hstored := stored_afterCalls names calls
  constructor
  case read_some =>
    intro name bytes
    rw [read?, entries_afterCalls, Table.get?_ofList_eq_some_iff_append]
  case read_none =>
    intro name
    rw [read?_eq_none_iff, mem_keys_afterCalls]
    simp only [not_exists, not_and]
    exact forall₂_congr fun e _ ↦ ne_comm
  case read_backslash =>
    intro name hbackslash
    exact read?_eq_none_iff.2 fun hmem ↦ (hstored name hmem).no_backslash hbackslash
  case mem_containers_iff => exact fun name ↦ mem_containers_afterCalls
  case exists_write_iff =>
    exact fun name bytes ↦ AssetStore.exists_write_iff.trans takes_iff_pieces
  case succeeded =>
    intro name bytes s hwrite
    refine ⟨?_, read?_of_write hwrite⟩
    rw [afterCalls_concat, Call.apply, hwrite]
    rfl
  case failed =>
    intro name bytes fault hfailed
    rw [afterCalls_concat, Call.apply, hfailed]
    rfl
  case stored => exact hstored
  case size_eq => exact (List.length_map _).symm.trans (perm_keys_afterCalls names calls).length_eq
  case mem_list => exact fun c hc name ↦ mem_list_iff hc
  case ascending => exact fun c ↦ pairwise_list _ c
  case disjoint => exact fun c c' hc hc' ↦ disjoint_list hc hc'

/-- A container that is added late: the first write fails, one entry is called like the container,
and the other one is written under two names. -/
def lateCalls : List Call :=
  [.write "gear/hats.json" ⟨#[1]⟩, .addContainer "gear", .write "gear\\hats.json" ⟨#[2]⟩,
    .write "gear" ⟨#[3]⟩, .write "gear/hats.json" ⟨#[4]⟩, .write "gear/../song" ⟨#[5]⟩]

theorem refines_afterCalls_late :
    Refines ["song"] lateCalls ∧
      written (withContainers ["song"]) lateCalls =
        [("gear/hats.json", ⟨#[2]⟩), ("gear", ⟨#[3]⟩), ("gear/hats.json", ⟨#[4]⟩)] ∧
      (afterCalls ["song"] lateCalls).read? "gear/hats.json" = some ⟨#[4]⟩ ∧
      (afterCalls ["song"] lateCalls).read? "gear\\hats.json" = none ∧
      (afterCalls ["song"] lateCalls).size = 2 ∧
      (afterCalls ["song"] lateCalls).list "gear" = ["gear/hats.json"] := by
  have h := refines_afterCalls ["song"] lateCalls
  have hwritten : written (withContainers ["song"]) lateCalls =
      [("gear/hats.json", ⟨#[2]⟩), ("gear", ⟨#[3]⟩), ("gear/hats.json", ⟨#[4]⟩)] := rfl
  refine ⟨h, hwritten, (h.read_some _ _).2 ?_, h.read_backslash _ (by decide), ?_, by decide⟩
  · rw [hwritten]
    exact ⟨[("gear/hats.json", ⟨#[2]⟩), ("gear", ⟨#[3]⟩)], [], rfl, by simp⟩
  · rw [h.size_eq, hwritten]
    decide

end AssetStore

end SongBundle
