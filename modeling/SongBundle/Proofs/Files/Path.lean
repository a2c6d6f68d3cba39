import Mathlib.Data.List.Basic
import SongBundle.Files.Path

/-!
# Parts of paths

A path is taken apart where `List.splitOn` takes its characters apart (`splitSlash_eq_splitOn`), so
parts have no slashes, and `parts_ofParts` says that parts put together come apart again.

`exists_parts_join` is about paths that are put after one path: they all go on from the same parts.
-/

set_option autoImplicit false

namespace SongBundle.Path

theorem splitSlash_eq_splitOn (cs : List Char) : splitSlash cs = cs.splitOn '/' := by
  induction cs with
  | nil => rfl
  | cons c cs ih =>
    rw [splitSlash, List.splitOn, List.splitOnP_cons_eq_if_modifyHead, ← List.splitOn, ← ih]
    by_cases hc : c = '/'
    · rw [if_pos hc, if_pos (by simpa using hc)]
    · rw [if_neg hc, if_neg (by simpa using hc)]
      cases hsplit : splitSlash cs with
      | nil => exact absurd hsplit (splitSlash_ne_nil cs)
      | cons part rest => rfl

theorem parts_ne_nil (path : String) : parts path ≠ [] :=
  List.map_eq_nil_iff.not.2 (splitSlash_ne_nil _)

theorem slash_notMem_of_mem_splitSlash {cs part : List Char} (h : part ∈ splitSlash cs) :
    '/' ∉ part := by
  induction cs generalizing part with
  | nil => simp_all [splitSlash]
  | cons c cs ih =>
    rw [splitSlash] at h
    split at h
    · rcases List.mem_cons.1 h with rfl | h
      · exact List.not_mem_nil
      · exact ih h
    · rename_i hc
      cases hsplit : splitSlash cs with
      | nil => exact absurd hsplit (splitSlash_ne_nil cs)
      | cons first rest =>
        rw [hsplit] at h ih
        rcases List.mem_cons.1 h with rfl | h
        · rw [List.mem_cons, not_or]
          exact ⟨fun heq ↦ hc heq.symm, ih List.mem_cons_self⟩
        · exact ih (List.mem_cons_of_mem _ h)

theorem slash_notMem_of_mem_parts {path part : String} (h : part ∈ parts path) :
    '/' ∉ part.toList := by
  obtain ⟨cs, hcs, rfl⟩ := List.mem_map.1 h
  rw [String.toList_ofList]
  exact slash_notMem_of_mem_splitSlash hcs

theorem parts_eq_singleton {name : String} (h : '/' ∉ name.toList) : parts name = [name] := by
  rw [parts, splitSlash_eq_splitOn, List.splitOn, List.splitOnP_eq_singleton]
  · simp
  · intro c hc
    exact beq_false_of_ne fun heq ↦ h (heq ▸ hc)

theorem parts_append_slash (front back : String) :
    parts (front ++ "/" ++ back) = parts front ++ parts back := by
  have hlist : (front ++ "/" ++ back).toList = front.toList ++ '/' :: back.toList := by
    simp
  rw [parts, hlist, splitSlash_eq_splitOn, List.splitOn, List.splitOnP_append_cons _ _ (by simp),
    ← List.splitOn, ← List.splitOn, ← splitSlash_eq_splitOn, ← splitSlash_eq_splitOn,
    List.map_append]
  rfl

theorem parts_ofParts {ps : List String} (hne : ps ≠ []) (h : ∀ p ∈ ps, '/' ∉ p.toList) :
    parts (ofParts ps) = ps := by
  have hlist : (ofParts ps).toList = ['/'].intercalate (ps.map String.toList) :=
    String.toList_intercalate
  rw [parts, hlist, splitSlash_eq_splitOn, List.splitOn_intercalate, List.map_map]
  · exact (List.map_congr_left fun _ _ ↦ String.ofList_toList).trans (List.map_id _)
  · simpa using h
  · simpa using hne

/-- A path is made up of its parts. -/
theorem ofParts_parts (path : String) : ofParts (parts path) = path := by
  have hlist : (ofParts (parts path)).toList = ['/'].intercalate ((parts path).map String.toList) :=
    String.toList_intercalate
  have hparts : (parts path).map String.toList = path.toList.splitOn '/' := by
    rw [parts, splitSlash_eq_splitOn, List.map_map]
    exact (List.map_congr_left fun _ _ ↦ String.toList_ofList).trans (List.map_id _)
  rw [← String.toList_inj, hlist, hparts, List.intercalate_splitOn]

theorem parts_inj {path path' : String} : parts path = parts path' ↔ path = path' :=
  ⟨fun h ↦ by rw [← ofParts_parts path, h, ofParts_parts], congrArg parts⟩

/-- A path that has more parts than another one goes on from it. -/
theorem exists_eq_append_slash {path front : String} {rest : List String} (hne : rest ≠ [])
    (h : parts path = parts front ++ rest) : path = front ++ "/" ++ ofParts rest := by
  rw [← parts_inj, parts_append_slash, h, parts_ofParts hne fun p hp ↦ ?_]
  exact slash_notMem_of_mem_parts (h ▸ List.mem_append_right _ hp)

/-- A path is absolute if it has more than one part and the first one is empty. -/
theorem isAbsolute_iff {path : String} :
    isAbsolute path = true ↔ ∃ part rest, parts path = "" :: part :: rest := by
  rw [isAbsolute, parts]
  cases path.toList with
  | nil => simp [splitSlash]
  | cons c cs =>
    have hne := splitSlash_ne_nil cs
    rw [splitSlash]
    cases hsplit : splitSlash cs with
    | nil => exact absurd hsplit hne
    | cons part rest =>
      by_cases hc : c = '/'
      · simp [hc]
      · simp [hc]

theorem parent_eq_ofParts {path : String} (hroot : (parts path).dropLast ≠ [""]) :
    parent path = ofParts (parts path).dropLast := by
  rw [parent]
  split
  · rename_i heq
    exact absurd heq hroot
  · rfl

theorem parts_parent {path : String} (hnil : (parts path).dropLast ≠ [])
    (hroot : (parts path).dropLast ≠ [""]) : parts (parent path) = (parts path).dropLast := by
  rw [parent_eq_ofParts hroot]
  exact parts_ofParts hnil fun part hpart ↦
    slash_notMem_of_mem_parts ((List.dropLast_sublist _).subset hpart)

theorem isAbsolute_parent {path : String} (hnil : (parts path).dropLast ≠ [])
    (hroot : (parts path).dropLast ≠ [""]) : isAbsolute (parent path) = isAbsolute path := by
  rw [Bool.eq_iff_iff, isAbsolute_iff, isAbsolute_iff, parts_parent hnil hroot]
  match hparts : parts path with
  | [] | [_] | [_, _] => simp_all
  | _ :: _ :: _ :: _ => simp

/-- The parent of a path has all its parts but the last, or these are empty and the parent is where
the path starts. -/
theorem parent_cases (path : String) :
    (∀ part ∈ (parts path).dropLast, part = "") ∧
        parent path = (if isAbsolute path then "/" else "") ∨
      parts (parent path) = (parts path).dropLast ∧
        isAbsolute (parent path) = isAbsolute path := by
  -- a path of one part has an empty parent, and one below the root has a parent written otherwise
  by_cases hnil : (parts path).dropLast = []
  · have hstart : isAbsolute path = false := by
      rw [← Bool.not_eq_true, isAbsolute_iff]
      rintro ⟨part, rest, hparts⟩
      simp [hparts] at hnil
    refine .inl ⟨by simp [hnil], ?_⟩
    rw [parent_eq_ofParts (by simp [hnil]), hnil, hstart]
    rfl
  by_cases hroot : (parts path).dropLast = [""]
  · have hstart : isAbsolute path = true := by
      rw [isAbsolute_iff]
      match hparts : parts path with
      | [] | [_] => simp_all
      | _ :: part :: rest => simp_all
    refine .inl ⟨by simp [hroot], ?_⟩
    rw [parent, hstart]
    split
    · rfl
    · rename_i hne
      exact absurd hroot hne
  · exact .inr ⟨parts_parent hnil hroot, isAbsolute_parent hnil hroot⟩

theorem isAbsolute_append {front : String} (back : String) (h : front ≠ "") :
    isAbsolute (front ++ back) = isAbsolute front := by
  have hne : front.toList ≠ [] := fun hnil ↦ h (String.toList_eq_nil_iff.1 hnil)
  rw [isAbsolute, isAbsolute, String.toList_append, List.head?_append_of_ne_nil _ hne]

theorem isAbsolute_eq_false_of_notMem {name : String} (h : '/' ∉ name.toList) :
    isAbsolute name = false := by
  rw [isAbsolute, beq_eq_false_iff_ne]
  exact fun hhead ↦ h (List.mem_of_head? hhead)

/-- Paths that are put after one path all go on from the same parts: its own, but for an empty one at
the end. -/
theorem exists_parts_join (base : String) :
    ∃ front, (parts base = front ∨ parts base = front ++ [""]) ∧
      ∀ next, isAbsolute next = false →
        parts (join base next) = front ++ parts next ∧
          isAbsolute (join base next) = isAbsolute base := by
  by_cases hempty : base = ""
  · refine ⟨[], .inr (by rw [hempty]; rfl), fun next hnext ↦ ?_⟩
    rw [join, hnext, if_neg Bool.false_ne_true, if_pos (.inl hempty), hempty, String.empty_append]
    exact ⟨rfl, hnext⟩
  by_cases hend : endsInSlash base = true
  · obtain ⟨cs, hcs⟩ := List.getLast?_eq_some_iff.1 (beq_iff_eq.1 hend)
    have hbase : base = String.ofList cs ++ "/" := by
      rw [← String.toList_inj, hcs]
      simp
    refine ⟨parts (String.ofList cs), .inr ?_, fun next hnext ↦ ?_⟩
    · rw [hbase, ← String.append_empty (s := String.ofList cs ++ "/"), parts_append_slash]
      rfl
    rw [join, hnext, if_neg Bool.false_ne_true, if_pos (.inr hend)]
    refine ⟨?_, isAbsolute_append next hempty⟩
    rw [hbase, parts_append_slash]
  · refine ⟨parts base, .inl rfl, fun next hnext ↦ ?_⟩
    rw [join, hnext, if_neg Bool.false_ne_true, if_neg (not_or.2 ⟨hempty, hend⟩)]
    refine ⟨parts_append_slash base next, ?_⟩
    rw [String.append_assoc]
    exact isAbsolute_append _ hempty

end SongBundle.Path
