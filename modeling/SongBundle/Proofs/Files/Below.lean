import SongBundle.Assets.EntryName
import SongBundle.Proofs.Files.Path
import SongBundle.Proofs.Files.Tree

/-!
# Paths that lead below another one

Names that a part leads down by, which is what `EntryName.isProper` checks, are never climbed back
(`foldl_step_of_isProper`).  So a path that is joined to another one by a normal name leads below it:
`FileTree.placeOf_join` says where to, and `FileTree.mem_passes_join` what it passes on its way.

In a tree with proper names only (`FileTree.Named`) everything below a place has a normal name there,
and no change can bring in other names (`FileTree.Named.perform`).
-/

set_option autoImplicit false

namespace SongBundle

namespace EntryName

theorem isNormal_iff {name : String} :
    isNormal name = true ↔ ∀ part ∈ Path.parts name, isProper part = true := by
  rw [isNormal, List.all_eq_true]

/-- A normal name starts from where it is put. -/
theorem isAbsolute_eq_false_of_isNormal {name : String} (h : isNormal name = true) :
    Path.isAbsolute name = false := by
  rw [← Bool.not_eq_true, Path.isAbsolute_iff]
  rintro ⟨part, rest, hparts⟩
  have hfirst := isNormal_iff.1 h "" (hparts ▸ List.mem_cons_self)
  exact (isProper_iff.1 hfirst).1 rfl

theorem isNormal_ofParts {names : List String} (hne : names ≠ [])
    (h : ∀ name ∈ names, isProper name = true ∧ '/' ∉ name.toList) :
    isNormal (Path.ofParts names) = true := by
  rw [isNormal_iff, Path.parts_ofParts hne fun name hname ↦ (h name hname).2]
  exact fun name hname ↦ (h name hname).1

theorem isNormal_of_notMem {name : String} (h : isProper name = true) (hslash : '/' ∉ name.toList) :
    isNormal name = true := by
  rw [isNormal_iff, Path.parts_eq_singleton hslash]
  exact List.forall_mem_singleton.2 h

theorem isNormal_of_normalize? {name normal : String} (h : normalize? name = some normal) :
    isNormal normal = true := by
  rw [normalize?] at h
  split at h
  · rename_i hnormal
    exact Option.some.inj h ▸ hnormal
  · cases h

/-- A name is below another one if it has all its parts and more. -/
theorem isBelow_iff {container name : String} :
    isBelow container name = true ↔
      ∃ rest, rest ≠ [] ∧ Path.parts name = Path.parts container ++ rest := by
  rw [isBelow, List.isPrefixOf_iff_prefix]
  constructor
  · rintro ⟨cs, hcs⟩
    have hname : name = container ++ "/" ++ String.ofList cs := by
      rw [← String.toList_inj, String.toList_append, String.toList_ofList, hcs]
    exact ⟨_, Path.parts_ne_nil _, hname ▸ Path.parts_append_slash _ _⟩
  · rintro ⟨rest, hne, hparts⟩
    have happend : (container ++ "/" ++ Path.ofParts rest).toList =
        (container ++ "/").toList ++ (Path.ofParts rest).toList := String.toList_append
    rw [Path.exists_eq_append_slash hne hparts, happend]
    exact List.prefix_append _ _

end EntryName

namespace FileTree

open EntryName

variable {t : FileTree} {place q : Place} {names : List String} {base name : String}

/-! ## Names that lead down -/

theorem step_of_isProper (h : isProper name = true) : step place name = place ++ [name] := by
  obtain ⟨hempty, hdot, hdots⟩ := isProper_iff.1 h
  rw [step, if_neg (not_or.2 ⟨hempty, hdot⟩), if_neg hdots]

theorem foldl_step_of_isProper (h : ∀ name ∈ names, isProper name = true) :
    names.foldl step place = place ++ names := by
  induction names generalizing place with
  | nil => exact (List.append_nil place).symm
  | cons name names ih =>
    obtain ⟨hname, hnames⟩ := List.forall_mem_cons.1 h
    rw [List.foldl_cons, step_of_isProper hname, ih hnames, List.append_assoc,
      List.singleton_append]

theorem mem_walk_of_isProper (h : ∀ name ∈ names, isProper name = true) :
    q ∈ walk place names ↔ ∃ front, front <+: names ∧ q = place ++ front := by
  induction names generalizing place with
  | nil => simp [walk]
  | cons name names ih =>
    obtain ⟨hname, hnames⟩ := List.forall_mem_cons.1 h
    rw [walk, List.mem_cons, step_of_isProper hname, ih hnames]
    simp [List.prefix_cons_iff, or_and_right, exists_or]

/-! ## Joined paths -/

/-- A normal name is walked from where its base leads. -/
theorem exists_start_join (t : FileTree) (base : String) :
    ∃ front, front.foldl step (t.origin base) = t.placeOf base ∧
      (∀ q, q ∈ walk (t.origin base) front ↔ q ∈ t.passes base) ∧
      ∀ name, isNormal name = true →
        Path.parts (Path.join base name) = front ++ Path.parts name ∧
          t.origin (Path.join base name) = t.origin base := by
  obtain ⟨front, hbase, hjoin⟩ := Path.exists_parts_join base
  rw [placeOf, placeFrom_eq_foldl, passes]
  refine ⟨front, ?_, fun q ↦ ?_, fun name hname ↦ ?_⟩
  · rcases hbase with hbase | hbase
    · rw [hbase]
    · rw [hbase, List.foldl_append]
      rfl
  · rcases hbase with hbase | hbase
    · rw [hbase]
    · rw [hbase, mem_walk_append]
      have hend := foldl_step_mem_walk (t.origin base) front
      simp only [walk, step, true_or, if_true, List.mem_cons, List.not_mem_nil, or_false, or_self]
      exact (or_iff_left_of_imp fun h ↦ h ▸ hend).symm
  · obtain ⟨hparts, hstart⟩ := hjoin name (isAbsolute_eq_false_of_isNormal hname)
    exact ⟨hparts, by rw [origin, origin, hstart]⟩

theorem placeOf_join (t : FileTree) (base : String) (h : isNormal name = true) :
    t.placeOf (Path.join base name) = t.placeOf base ++ Path.parts name := by
  obtain ⟨front, hplace, -, hjoin⟩ := t.exists_start_join base
  obtain ⟨hparts, hstart⟩ := hjoin name h
  rw [placeOf, placeFrom_eq_foldl, hparts, hstart, List.foldl_append, hplace,
    foldl_step_of_isProper (isNormal_iff.1 h)]

theorem mem_passes_join (h : isNormal name = true) :
    q ∈ t.passes (Path.join base name) ↔
      q ∈ t.passes base ∨ ∃ front, front <+: Path.parts name ∧ q = t.placeOf base ++ front := by
  obtain ⟨front, hplace, hpasses, hjoin⟩ := t.exists_start_join base
  obtain ⟨hparts, hstart⟩ := hjoin name h
  rw [passes, hparts, hstart, mem_walk_append, hpasses, hplace,
    mem_walk_of_isProper (isNormal_iff.1 h)]

theorem placeOf_mem_passes (t : FileTree) (path : String) : t.placeOf path ∈ t.passes path := by
  rw [placeOf, placeFrom_eq_foldl]
  exact foldl_step_mem_walk _ _

/-- The parent of a path passes what its parts but the last pass. -/
theorem mem_passes_parent {path : String} :
    q ∈ t.passes (Path.parent path) ↔ q ∈ walk (t.origin path) (Path.parts path).dropLast := by
  rcases Path.parent_cases path with ⟨hempty, hparent⟩ | ⟨hparts, hstart⟩
  · have hslash : t.passes "/" = [[], [], []] := rfl
    have hhome : t.passes "" = [t.home, t.home] := rfl
    have hwalk : q ∈ walk (t.origin path) (Path.parts path).dropLast ↔ q = t.origin path :=
      ⟨eq_of_mem_walk hempty, fun h ↦ h ▸ mem_walk_start⟩
    rw [hwalk, hparent, origin]
    split
    · simp [hslash]
    · simp [hhome]
  · rw [passes, hparts, origin, origin, hstart]

/-- A path passes whatever its parent passes. -/
theorem mem_passes_of_mem_passes_parent {path : String} (h : q ∈ t.passes (Path.parent path)) :
    q ∈ t.passes path :=
  mem_walk_of_isPrefix (List.dropLast_prefix _) (mem_passes_parent.1 h)

theorem mem_passes_parent_join (h : isNormal name = true) :
    q ∈ t.passes (Path.parent (Path.join base name)) ↔
      q ∈ t.passes base ∨
        ∃ front, front <+: (Path.parts name).dropLast ∧ q = t.placeOf base ++ front := by
  obtain ⟨front, hplace, hpasses, hjoin⟩ := t.exists_start_join base
  obtain ⟨hparts, hstart⟩ := hjoin name h
  have hproper : ∀ part ∈ (Path.parts name).dropLast, isProper part = true := fun part hpart ↦
    isNormal_iff.1 h part (List.dropLast_subset _ hpart)
  rw [mem_passes_parent, hparts, hstart, List.dropLast_append_of_ne_nil (Path.parts_ne_nil name),
    mem_walk_append, hpasses, hplace, mem_walk_of_isProper hproper]

/-! ## Trees with proper names -/

/-- All names that lead to a place are such as a file can have in a directory. -/
def Proper (place : Place) : Prop := ∀ name ∈ place, isProper name = true ∧ '/' ∉ name.toList

instance : Decidable (Proper place) :=
  inferInstanceAs (Decidable (∀ name ∈ place, isProper name = true ∧ '/' ∉ name.toList))

theorem Proper.step {part : String} (h : Proper place) (hpart : '/' ∉ part.toList) :
    Proper (step place part) := by
  rw [FileTree.step]
  split
  · exact h
  · rename_i hmove
    split
    · exact fun name hname ↦ h name (List.dropLast_subset _ hname)
    · rename_i hdown
      rw [not_or] at hmove
      refine List.forall_mem_append.2 ⟨h, List.forall_mem_singleton.2 ⟨?_, hpart⟩⟩
      exact isProper_iff.2 ⟨hmove.1, hmove.2, hdown⟩

theorem Proper.of_mem_walk {parts : List String} (h : Proper place)
    (hparts : ∀ part ∈ parts, '/' ∉ part.toList) (hq : q ∈ walk place parts) : Proper q := by
  induction parts generalizing place with
  | nil => exact List.mem_singleton.1 hq ▸ h
  | cons part parts ih =>
    obtain ⟨hpart, hparts⟩ := List.forall_mem_cons.1 hparts
    rcases List.mem_cons.1 hq with rfl | hq
    · exact h
    · exact ih (h.step hpart) hparts hq

/-- Paths only pass places with proper names. -/
theorem Proper.of_mem_passes (h : Proper t.home) {path : String} (hq : q ∈ t.passes path) :
    Proper q := by
  have hstart : Proper (t.origin path) := by
    rw [origin]
    split
    · exact fun _ hname ↦ absurd hname List.not_mem_nil
    · exact h
  exact hstart.of_mem_walk (fun _ ↦ Path.slash_notMem_of_mem_parts) hq

/-- Everything in a tree stands under proper names. -/
def Named (t : FileTree) : Prop := ∀ place node, t.node? place = some node → Proper place

/-- Whatever changes are made to it, a tree with proper names keeps to them. -/
theorem Named.perform (h : t.Named) (hhome : Proper t.home) (actions : List FileAction) :
    (t.perform actions).2.Named := by
  intro q node hnode
  rcases (extends_perform t actions).node q with hsame | ⟨-, -, path, -, hq⟩ |
    ⟨-, bytes, -, path, -, hq⟩
  · exact h q node (hsame ▸ hnode)
  · exact hhome.of_mem_passes hq
  · exact hq ▸ hhome.of_mem_passes (t.placeOf_mem_passes path)

theorem mem_below {node : FileNode} (h : (names, node) ∈ t.below place) :
    names ≠ [] ∧ t.node? (place ++ names) = some node := by
  obtain ⟨e, he, hfound⟩ := List.mem_filterMap.1 h
  split at hfound
  · rename_i hbelow
    obtain ⟨⟨rest, hrest⟩, hlength⟩ := hbelow
    rw [← hrest, List.drop_left] at hfound
    obtain ⟨rfl, rfl⟩ := Prod.mk.inj (Option.some.inj hfound)
    have hne : rest ≠ [] := fun hnil ↦ hlength (by rw [← hrest, hnil, List.append_nil])
    refine ⟨hne, ?_⟩
    rw [hrest, node?, if_neg (hrest ▸ by simp [hne])]
    exact Table.get?_eq_some_iff.2 he
  · cases hfound

/-- Below a place is what stands there under further names. -/
theorem mem_below_iff {node : FileNode} :
    (names, node) ∈ t.below place ↔ names ≠ [] ∧ t.node? (place ++ names) = some node := by
  refine ⟨mem_below, fun ⟨hne, hnode⟩ ↦ List.mem_filterMap.2 ⟨(place ++ names, node), ?_, ?_⟩⟩
  · rw [node?, if_neg (by simp [hne])] at hnode
    exact Table.get?_eq_some_iff.1 hnode
  · rw [if_pos ⟨List.prefix_append _ _, by simpa using hne⟩, List.drop_left]

theorem Named.isNormal_ofParts (h : t.Named) {node : FileNode}
    (hbelow : (names, node) ∈ t.below place) : isNormal (Path.ofParts names) = true := by
  obtain ⟨hne, hnode⟩ := mem_below hbelow
  exact EntryName.isNormal_ofParts hne fun name hname ↦
    h _ _ hnode name (List.mem_append_right _ hname)

end FileTree

end SongBundle
