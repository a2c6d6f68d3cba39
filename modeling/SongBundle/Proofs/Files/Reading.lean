import SongBundle.Assets.Store
import SongBundle.Library.Basic
import SongBundle.Proofs.Files.Below
import SongBundle.Proofs.Files.Making

/-!
# What reading depends on

A path is read by what stands on its way and below its place.  Trees that have the same there
(`FileTree.AgreeOn`) give the same store for a template directory (`AssetStore.load_congr`) and the
same move for the directory of a key (`Library.ofFolder_congr`).
-/

set_option autoImplicit false

namespace SongBundle

open EntryName

namespace FileTree

variable {t t' : FileTree} {place q : Place} {parts : List String} {path : String}

/-! ## One path -/

/-- What parts lead to depends on the places that they pass. -/
theorem follow_congr (h : ∀ q ∈ walk place parts, t'.node? q = t.node? q) :
    t'.follow place parts = t.follow place parts := by
  induction parts generalizing place with
  | nil => rfl
  | cons part parts ih =>
    obtain ⟨hplace, hwalk⟩ := List.forall_mem_cons.1 h
    have hnext := hwalk _ mem_walk_start
    have hrest := ih hwalk
    rw [follow, follow, hplace]
    cases t.node? place with
    | none => rfl
    | some node =>
      cases node with
      | file bytes => rfl
      | directory =>
        rw [step] at hnext hrest
        by_cases hstay : part = "" ∨ part = "."
        · simpa [hstay] using hrest
        by_cases hup : part = ".."
        · simpa [hup] using hrest
        simp only [hstay, hup, if_false] at hnext hrest ⊢
        rw [hnext, hrest]

/-- Two trees have the same on the way of a path and below the place that it leads to. -/
structure AgreeOn (t t' : FileTree) (path : String) : Prop where
  home_eq : t'.home = t.home
  passes : ∀ q ∈ t.passes path, t'.node? q = t.node? q
  below : ∀ names, t'.node? (t.placeOf path ++ names) = t.node? (t.placeOf path ++ names)

theorem AgreeOn.resolve_eq (h : t.AgreeOn t' path) : t'.resolve path = t.resolve path := by
  rw [resolve, resolve, origin, h.home_eq]
  exact if_congr .rfl (follow_congr h.passes) rfl

theorem AgreeOn.find_eq (h : t.AgreeOn t' path) : t'.find path = t.find path := by
  rw [find, find, h.resolve_eq]
  cases hpath : t.resolve path with
  | error fault => rfl
  | ok place =>
    obtain rfl := placeOf_of_resolve hpath
    simp only [bind, Except.bind, h.passes _ (t.placeOf_mem_passes path)]

theorem AgreeOn.isDirectory_eq (h : t.AgreeOn t' path) :
    t'.isDirectory path = t.isDirectory path := by
  rw [isDirectory, isDirectory, h.find_eq]

theorem AgreeOn.isFile_eq (h : t.AgreeOn t' path) : t'.isFile path = t.isFile path := by
  rw [isFile, isFile, h.find_eq]

theorem AgreeOn.read_eq (h : t.AgreeOn t' path) : t'.read path = t.read path := by
  rw [read, read, h.find_eq]

/-- What a name leads to from a path is on the way of the path or below its place. -/
theorem AgreeOn.join {name : String} (h : t.AgreeOn t' path) (hname : isNormal name = true) :
    t.AgreeOn t' (Path.join path name) where
  home_eq := h.home_eq
  passes q hq := by
    rcases (mem_passes_join hname).1 hq with hq | ⟨front, -, rfl⟩
    · exact h.passes q hq
    · exact h.below front
  below names := by
    rw [placeOf_join t path hname, List.append_assoc]
    exact h.below _

/-! ## Everything below a place -/

/-- The nodes of a tree that stand below a place. -/
def nodesBelow (t : FileTree) (place : Place) : Table Place FileNode where
  entries := t.nodes.toList.filter fun e ↦ place <+: e.1 ∧ e.1.length ≠ place.length
  ascending := t.nodes.ascending.filter _

theorem below_eq (t : FileTree) (place : Place) :
    t.below place = (t.nodesBelow place).toList.map fun e ↦ (e.1.drop place.length, e.2) := by
  have hkeep (l : List (Place × FileNode)) :
      (l.filterMap fun e ↦ if place <+: e.1 ∧ e.1.length ≠ place.length then
        some (e.1.drop place.length, e.2) else none) =
      (l.filter fun e ↦ place <+: e.1 ∧ e.1.length ≠ place.length).map
        fun e ↦ (e.1.drop place.length, e.2) := by
    rw [← List.filterMap_eq_map, List.filterMap_filter]
    simp
  exact hkeep t.nodes.toList

theorem below_congr (h : ∀ names, t'.node? (place ++ names) = t.node? (place ++ names)) :
    t'.below place = t.below place := by
  have hmem (t : FileTree) (q : Place) (node : FileNode) :
      (t.nodesBelow place).get? q = some node ↔
        (place <+: q ∧ q.length ≠ place.length) ∧ t.node? q = some node := by
    have hentry : (t.nodesBelow place).get? q = some node ↔
        (q, node) ∈ t.nodes.toList ∧ place <+: q ∧ q.length ≠ place.length := by
      rw [Table.get?_eq_some_iff]
      exact List.mem_filter.trans (and_congr_right' decide_eq_true_iff)
    rw [hentry, and_comm]
    refine and_congr_right fun hq ↦ ?_
    have hne : q ≠ [] := by
      rintro rfl
      obtain rfl := List.prefix_nil.1 hq.1
      exact hq.2 rfl
    rw [node?, if_neg hne, Table.get?_eq_some_iff]
  have hsame : t'.nodesBelow place = t.nodesBelow place := by
    refine Table.ext_get? fun q ↦ Option.ext fun node ↦ ?_
    rw [hmem, hmem]
    refine and_congr_right fun hbelow ↦ ?_
    obtain ⟨names, rfl⟩ := hbelow.1
    rw [h]
  rw [below_eq, below_eq, hsame]

end FileTree

/-! ## Templates and moves -/

variable {t t' : FileTree} {root : String}

theorem AssetStore.load_congr (h : t.AgreeOn t' root) : load t' root = load t root := by
  rw [load, load, h.isDirectory_eq, h.resolve_eq]
  cases hroot : t.resolve root with
  | error fault => rfl
  | ok place =>
    obtain rfl := FileTree.placeOf_of_resolve hroot
    simp only [Except.mapError, bind, Except.bind, FileTree.below_congr h.below]

theorem Library.loadFile_congr {α : Type} {value : Json.Decoder α} {file : String} {k : MoveKey}
    (hfile : isNormal file = true) (h : t.AgreeOn t' (Path.join root k.directory)) :
    loadFile t' root value file k = loadFile t root value file k := by
  rw [loadFile, loadFile]
  simp only [h.isDirectory_eq, (h.join hfile).isFile_eq, (h.join hfile).read_eq]

/-- What a folder says of a move depends on the directory of its key. -/
theorem Library.ofFolder_congr {k : MoveKey} (h : t.AgreeOn t' (Path.join root k.directory)) :
    (ofFolder t' root).loadMove k = (ofFolder t root).loadMove k ∧
      (ofFolder t' root).loadSequence k = (ofFolder t root).loadSequence k :=
  ⟨loadFile_congr (by decide) h, loadFile_congr (by decide) h⟩

end SongBundle
