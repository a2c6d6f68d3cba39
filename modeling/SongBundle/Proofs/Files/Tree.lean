import SongBundle.Files.Tree
import SongBundle.Proofs.Table

/-!
# What changes to a file tree change

A path passes places one after the other (`FileTree.passes`) and leads to the last of them
(`FileTree.placeOf`).  `FileTree.Extends` says that one tree is another one with more directories
and with new contents of files: nothing is removed, and a directory stays one.

* `extends_makeFrom` and `extends_writeFile` are the steps, `extends_perform` the run: wherever
  changes stop, directories were only made where one of them passes, and files only written where
  one of them leads.
* `exists_of_perform_eq_error` says that changes stop at the first that fails.
-/

set_option autoImplicit false

namespace SongBundle.FileTree

open Std

variable {t t' t'' : FileTree} {place q : Place} {parts : List String} {path : String}

/-! ## Places -/

theorem node?_put {node : FileNode} (hplace : place ≠ []) :
    (t.put place node).node? q = if q = place then some node else t.node? q := by
  by_cases hq : q = []
  · rw [node?, if_pos hq, if_neg (hq ▸ hplace.symm), node?, if_pos hq]
  · rw [node?, if_neg hq, put, Table.get?_insert_eq, node?, if_neg hq]

theorem hasDirectory_iff : t.hasDirectory place = true ↔ t.node? place = some .directory := by
  rw [hasDirectory]
  split <;> simp_all

/-- Where a part leads from a place. -/
def step (place : Place) (part : String) : Place :=
  if part = "" ∨ part = "." then place
  else if part = ".." then place.dropLast
  else place ++ [part]

/-- The places that parts pass, the one where they start and the one they lead to included. -/
def walk : Place → List String → List Place
  | place, [] => [place]
  | place, part :: parts => place :: walk (step place part) parts

/-- The places that a path passes. -/
def passes (t : FileTree) (path : String) : List Place := walk (t.origin path) (Path.parts path)

theorem placeFrom_eq_foldl : placeFrom place parts = parts.foldl step place := by
  induction parts generalizing place with
  | nil => rfl
  | cons part parts ih =>
    rw [placeFrom, List.foldl_cons, step, ih, ih, ih]
    split
    · rfl
    · split <;> rfl

theorem mem_walk_start : place ∈ walk place parts := by
  cases parts <;> simp [walk]

theorem foldl_step_mem_walk (place : Place) (parts : List String) :
    parts.foldl step place ∈ walk place parts := by
  induction parts generalizing place with
  | nil => exact List.mem_singleton_self place
  | cons part parts ih => exact List.mem_cons_of_mem _ (ih _)

/-- Empty parts lead nowhere. -/
theorem eq_of_mem_walk (h : ∀ part ∈ parts, part = "") (hq : q ∈ walk place parts) : q = place := by
  induction parts with
  | nil => exact List.mem_singleton.1 hq
  | cons part parts ih =>
    obtain ⟨hpart, hparts⟩ := List.forall_mem_cons.1 h
    rw [walk, step, if_pos (.inl hpart)] at hq
    exact (List.mem_cons.1 hq).elim id (ih hparts)

theorem mem_walk_append {rest : List String} :
    q ∈ walk place (parts ++ rest) ↔
      q ∈ walk place parts ∨ q ∈ walk (parts.foldl step place) rest := by
  induction parts generalizing place with
  | nil =>
    rw [List.nil_append, List.foldl_nil, walk, List.mem_singleton]
    exact (or_iff_right_of_imp fun h ↦ h ▸ mem_walk_start).symm
  | cons part parts ih =>
    rw [List.cons_append, List.foldl_cons, walk, walk, List.mem_cons, List.mem_cons, ih, or_assoc]

theorem mem_walk_of_isPrefix {parts' : List String} (hpre : parts <+: parts')
    (h : q ∈ walk place parts) : q ∈ walk place parts' := by
  obtain ⟨rest, rfl⟩ := hpre
  exact mem_walk_append.2 (.inl h)

/-! ## Trees with more in them -/

/-- One tree is another one with directories made at some places and files written at some. -/
structure Extends (dirs : Place → Prop) (files : Place → ByteArray → Prop) (t t' : FileTree) :
    Prop where
  home_eq : t'.home = t.home
  /-- A place is as it was, or nothing was there and a directory is, or no directory was there and a
  file is. -/
  node : ∀ q, t'.node? q = t.node? q ∨
    t.node? q = none ∧ t'.node? q = some .directory ∧ dirs q ∨
    t.node? q ≠ some .directory ∧ ∃ bytes, t'.node? q = some (.file bytes) ∧ files q bytes

section

variable {dirs dirs' : Place → Prop} {files files' : Place → ByteArray → Prop}

theorem Extends.refl (t : FileTree) : t.Extends dirs files t := ⟨rfl, fun _ ↦ .inl rfl⟩

theorem Extends.trans (h : t.Extends dirs files t') (h' : t'.Extends dirs files t'') :
    t.Extends dirs files t'' := by
  refine ⟨h'.home_eq.trans h.home_eq, fun q ↦ ?_⟩
  rcases h'.node q with hsame | ⟨hnone, hdir, hq⟩ | ⟨hno, hfile⟩
  · rw [hsame]
    exact h.node q
  · rcases h.node q with hsame | ⟨-, hdir', -⟩ | ⟨-, bytes, hfile', -⟩
    · exact .inr (.inl ⟨hsame ▸ hnone, hdir, hq⟩)
    · rw [hnone] at hdir'
      cases hdir'
    · rw [hnone] at hfile'
      cases hfile'
  · rcases h.node q with hsame | ⟨-, hdir', -⟩ | ⟨hno', -⟩
    · exact .inr (.inr ⟨hsame ▸ hno, hfile⟩)
    · exact absurd hdir' hno
    · exact .inr (.inr ⟨hno', hfile⟩)

theorem Extends.imp (h : t.Extends dirs files t') (hdirs : ∀ q, dirs q → dirs' q)
    (hfiles : ∀ q bytes, files q bytes → files' q bytes) : t.Extends dirs' files' t' := by
  refine ⟨h.home_eq, fun q ↦ ?_⟩
  rcases h.node q with hsame | ⟨hnone, hdir, hq⟩ | ⟨hno, bytes, hfile, hq⟩
  · exact .inl hsame
  · exact .inr (.inl ⟨hnone, hdir, hdirs q hq⟩)
  · exact .inr (.inr ⟨hno, bytes, hfile, hfiles q bytes hq⟩)

/-- A directory stays one. -/
theorem Extends.hasDirectory (h : t.Extends dirs files t') (hq : t.hasDirectory q = true) :
    t'.hasDirectory q = true := by
  rw [hasDirectory_iff] at *
  rcases h.node q with hsame | ⟨-, hdir, -⟩ | ⟨hno, -⟩
  · exact hsame.trans hq
  · exact hdir
  · exact absurd hq hno

theorem extends_put_directory (hnone : t.node? place = none) (hplace : dirs place) :
    t.Extends dirs files (t.put place .directory) := by
  have hne : place ≠ [] := fun h ↦ by simp [node?, h] at hnone
  refine ⟨rfl, fun q ↦ ?_⟩
  rw [node?_put hne]
  by_cases hq : q = place
  · rw [if_pos hq, hq]
    exact .inr (.inl ⟨hnone, rfl, hplace⟩)
  · exact .inl (if_neg hq)

theorem extends_put_file {bytes : ByteArray} (hno : t.hasDirectory place = false)
    (hplace : files place bytes) : t.Extends dirs files (t.put place (.file bytes)) := by
  have hnode : t.node? place ≠ some .directory := fun h ↦ by
    rw [hasDirectory_iff.2 h] at hno
    cases hno
  have hne : place ≠ [] := fun h ↦ hnode (if_pos h)
  refine ⟨rfl, fun q ↦ ?_⟩
  rw [node?_put hne]
  by_cases hq : q = place
  · rw [if_pos hq, hq]
    exact .inr (.inr ⟨hnode, bytes, rfl, hplace⟩)
  · exact .inl (if_neg hq)

end

/-! ## Running changes -/

section

variable {α β : Type}

theorem run_get_bind (f : FileTree → Change α) (t : FileTree) :
    (get >>= f).run t = (f t).run t := rfl

theorem run_lift (x : Except FileFault α) (t : FileTree) : (liftM x : Change α).run t = (x, t) := by
  cases x <;> rfl

theorem run_bind (x : Change α) (f : α → Change β) (t : FileTree) :
    (x >>= f).run t =
      match x.run t with
      | (.ok a, u) => (f a).run u
      | (.error fault, u) => (.error fault, u) := by
  change (match x.run t with | (a, u) => (ExceptT.bindCont f a).run u) = _
  rcases x.run t with ⟨_ | _, u⟩ <;> rfl

theorem extends_bind {dirs : Place → Prop} {files : Place → ByteArray → Prop} {x : Change α}
    {f : α → Change β} (hx : t.Extends dirs files (x.run t).2)
    (hf : ∀ a (u : FileTree), u.Extends dirs files ((f a).run u).2) :
    t.Extends dirs files ((x >>= f).run t).2 := by
  rw [run_bind]
  split
  · rename_i a u hrun
    exact .trans (by rw [hrun] at hx; exact hx) (hf a u)
  · rename_i fault u hrun
    rw [hrun] at hx
    exact hx

end

/-! ## Making directories -/

/-- One part of making directories. -/
theorem run_makeFrom_cons (t : FileTree) (place : Place) (part : String) (parts : List String) :
    (makeFrom place (part :: parts)).run t =
      if part = "" ∨ part = "." then (makeFrom place parts).run t
      else if part = ".." then (makeFrom place.dropLast parts).run t
      else
        match t.node? (place ++ [part]) with
        | some .directory => (makeFrom (place ++ [part]) parts).run t
        | some (.file _) => (.error .exists, t)
        | none =>
          if Path.isUsablePart part then
            (makeFrom (place ++ [part]) parts).run (t.put (place ++ [part]) .directory)
          else (.error .badName, t) := by
  rw [makeFrom]
  split
  · rfl
  split
  · rfl
  rw [run_get_bind]
  cases t.node? (place ++ [part]) with
  | some node => cases node <;> rfl
  | none =>
    dsimp only
    split <;> rfl

theorem extends_makeFrom (t : FileTree) (place : Place) (parts : List String) {files} :
    t.Extends (· ∈ walk place parts) files ((makeFrom place parts).run t).2 := by
  induction parts generalizing t place with
  | nil => exact .refl t
  | cons part parts ih =>
    -- wherever the first part leads, the others pass places that the whole list passes
    have hrest {start : Place} (hstep : step place part = start) (u : FileTree) :
        u.Extends (· ∈ walk place (part :: parts)) files ((makeFrom start parts).run u).2 :=
      hstep ▸ (ih u _).imp (fun _ hq ↦ List.mem_cons_of_mem _ hq) fun _ _ h ↦ h
    rw [run_makeFrom_cons]
    split
    · rename_i hstay
      exact hrest (if_pos hstay) t
    · rename_i hmove
      split
      · rename_i hup
        exact hrest ((if_neg hmove).trans (if_pos hup)) t
      · rename_i hdown
        have hstep : step place part = place ++ [part] := (if_neg hmove).trans (if_neg hdown)
        split
        · exact hrest hstep t
        · exact .refl t
        · rename_i hnone
          split
          · refine .trans (extends_put_directory hnone ?_) (hrest hstep _)
            exact List.mem_cons_of_mem _ (hstep ▸ mem_walk_start)
          · exact .refl t

theorem trimParts_isPrefix (parts : List String) : trimParts parts <+: parts := by
  have hsuffix := List.dropWhile_suffix (l := parts.reverse) fun p ↦ p = "" || p = "."
  rw [trimParts, ← List.reverse_suffix, List.reverse_reverse]
  exact hsuffix

theorem leadingParts_isPrefix (parts : List String) : leadingParts parts <+: parts := by
  have hsuffix := (List.tail_suffix _).trans (List.dropWhile_suffix (l := parts.reverse) (· = ""))
  rw [leadingParts, ← List.reverse_suffix, List.reverse_reverse]
  exact hsuffix

theorem extends_makeDirectories (t : FileTree) (path : String)
    {files : Place → ByteArray → Prop} :
    t.Extends (· ∈ t.passes path) files ((makeDirectories path).run t).2 := by
  have hmake (parts : List String) (hpre : parts <+: Path.parts path) :
      t.Extends (· ∈ t.passes path) files ((makeFrom (t.origin path) parts).run t).2 :=
    (extends_makeFrom t (t.origin path) parts).imp (fun _ ↦ mem_walk_of_isPrefix hpre)
      fun _ _ h ↦ h
  rw [makeDirectories]
  split
  · exact .refl t
  split
  · exact .refl t
  rw [run_get_bind]
  dsimp only
  split
  · exact .refl t
  split
  · have htrim := (List.dropLast_prefix _).trans (trimParts_isPrefix (Path.parts path))
    refine extends_bind (hmake _ htrim) fun place u ↦ ?_
    rw [run_get_bind]
    refine extends_bind (by rw [run_lift]; exact .refl u) fun place u ↦ ?_
    split <;> exact .refl u
  · exact extends_bind (hmake _ (List.prefix_refl _)) fun place u ↦ .refl u

/-! ## Writing files -/

theorem run_writeFile (t : FileTree) (path : String) (bytes : ByteArray) :
    (writeFile path bytes).run t =
      if path = "" then (.error .notFound, t)
      else if !Path.isUsable path then (.error .badName, t)
      else
        match t.follow (t.origin path) (Path.parts path).dropLast, (Path.parts path).getLast? with
        | .error fault, _ => (.error fault, t)
        | .ok _, none => (.error .notFound, t)
        | .ok place, some name =>
          if !t.hasDirectory place then (.error .notADirectory, t)
          else if name = "" ∨ name = "." ∨ name = ".." then (.error .isADirectory, t)
          else if !Path.isUsablePart name then (.error .badName, t)
          else if t.hasDirectory (place ++ [name]) then (.error .isADirectory, t)
          else (.ok (), t.put (place ++ [name]) (.file bytes)) := by
  have hguard (c : Prop) [Decidable c] (fault : FileFault) (x : Change Unit) :
      (if c then (throw fault : Change PUnit) >>= fun _ ↦ x else x).run t =
        if c then (.error fault, t) else x.run t := by
    split <;> rfl
  rw [writeFile, run_get_bind]
  dsimp only
  rw [hguard, hguard, run_bind, run_lift]
  cases t.follow (t.origin path) (Path.parts path).dropLast with
  | error fault => rfl
  | ok place =>
    cases (Path.parts path).getLast? with
    | none => rfl
    | some name =>
      dsimp only
      rw [hguard, hguard, hguard, hguard]
      rfl

/-- A part can be followed from a directory, if it leads up or names something that is there. -/
theorem follow_cons_eq_ok_iff {part : String} :
    t.follow place (part :: parts) = .ok q ↔
      t.hasDirectory place = true ∧
        (¬(part = "" ∨ part = ".") → part ≠ ".." →
          Path.isUsablePart part = true ∧ (t.node? (place ++ [part])).isSome = true) ∧
        t.follow (step place part) parts = .ok q := by
  rw [hasDirectory_iff, follow, step]
  cases hnode : t.node? place with
  | none => exact ⟨fun h ↦ (nomatch h), fun h ↦ (nomatch h.1)⟩
  | some node =>
    cases node with
    | file bytes => exact ⟨fun h ↦ (nomatch h), fun h ↦ (nomatch h.1)⟩
    | directory =>
      by_cases hstay : part = "" ∨ part = "."
      · simp [hstay]
      by_cases hup : part = ".."
      · simp [hup]
      by_cases husable : Path.isUsablePart part = true
      · cases hnext : t.node? (place ++ [part]) <;> simp [hstay, hup, husable]
      · simp [hstay, hup, husable]

/-- Following parts leads where they lead, if it leads anywhere. -/
theorem follow_eq_foldl (h : t.follow place parts = .ok q) : q = parts.foldl step place := by
  induction parts generalizing place with
  | nil => exact (Except.ok.inj h).symm
  | cons part parts ih => exact ih (follow_cons_eq_ok_iff.1 h).2.2

/-- Writing a file fails and changes nothing, or no directory stands in its place. -/
theorem writeFile_cases (t : FileTree) (path : String) (bytes : ByteArray) :
    (∃ fault, (writeFile path bytes).run t = (.error fault, t)) ∨
      t.hasDirectory (t.placeOf path) = false ∧
        (writeFile path bytes).run t = (.ok (), t.put (t.placeOf path) (.file bytes)) := by
  rw [run_writeFile]
  split
  · exact .inl ⟨_, rfl⟩
  split
  · exact .inl ⟨_, rfl⟩
  split
  · exact .inl ⟨_, rfl⟩
  · exact .inl ⟨_, rfl⟩
  · rename_i place name hfollow hlast
    split
    · exact .inl ⟨_, rfl⟩
    split
    · exact .inl ⟨_, rfl⟩
    rename_i hname
    split
    · exact .inl ⟨_, rfl⟩
    have hplace : t.placeOf path = place ++ [name] := by
      obtain ⟨front, hparts⟩ := List.getLast?_eq_some_iff.1 hlast
      rw [hparts, List.dropLast_concat] at hfollow
      rw [placeOf, placeFrom_eq_foldl, hparts, List.foldl_append, ← follow_eq_foldl hfollow,
        List.foldl_cons, List.foldl_nil, step, if_neg, if_neg]
      · exact fun h ↦ hname (.inr (.inr h))
      · exact fun h ↦ hname (h.imp id .inl)
    rw [hplace]
    split
    · exact .inl ⟨_, rfl⟩
    · rename_i hno
      exact .inr ⟨by simpa using hno, rfl⟩

theorem extends_writeFile (t : FileTree) (path : String) (bytes : ByteArray)
    {dirs : Place → Prop} :
    t.Extends dirs (fun q b ↦ q = t.placeOf path ∧ b = bytes)
      ((writeFile path bytes).run t).2 := by
  rcases writeFile_cases t path bytes with ⟨fault, hrun⟩ | ⟨hno, hrun⟩
  · rw [hrun]
    exact .refl t
  · rw [hrun]
    exact extends_put_file hno ⟨rfl, rfl⟩

/-! ## Runs -/

/-- A directory that changes make stands where one of them passes. -/
def DirectoryOf (t : FileTree) (actions : List FileAction) (q : Place) : Prop :=
  ∃ path, .makeDirectories path ∈ actions ∧ q ∈ t.passes path

/-- A file that changes write stands where one of them leads, and has its contents. -/
def FileOf (t : FileTree) (actions : List FileAction) (q : Place) (bytes : ByteArray) : Prop :=
  ∃ path, .write path bytes ∈ actions ∧ q = t.placeOf path

theorem passes_congr (h : t'.home = t.home) (path : String) : t'.passes path = t.passes path := by
  rw [passes, passes, origin, origin, h]

theorem placeOf_congr (h : t'.home = t.home) (path : String) :
    t'.placeOf path = t.placeOf path := by
  rw [placeOf, placeOf, origin, origin, h]

theorem extends_act {action : FileAction} {actions : List FileAction} (hhome : t'.home = t.home)
    (hmem : action ∈ actions) :
    t'.Extends (t.DirectoryOf actions) (t.FileOf actions) ((act action).run t').2 := by
  cases action with
  | makeDirectories path =>
    refine (extends_makeDirectories t' path).imp (fun q hq ↦ ⟨path, hmem, ?_⟩) fun _ _ h ↦ h
    rwa [← passes_congr hhome]
  | write path bytes =>
    refine (extends_writeFile t' path bytes).imp (fun _ h ↦ h) ?_
    rintro q b ⟨hq, rfl⟩
    exact ⟨path, hmem, hq.trans (placeOf_congr hhome path)⟩

theorem perform_cons (t : FileTree) (action : FileAction) (actions : List FileAction) :
    t.perform (action :: actions) =
      match (act action).run t with
      | (.ok _, u) => u.perform actions
      | (.error fault, u) => (.error fault, u) := by
  change (act action >>= fun _ ↦ actions.forM act).run t = _
  rw [run_bind]
  rcases (act action).run t with ⟨_ | _, u⟩ <;> rfl

theorem extends_perform_of_subset {rest actions : List FileAction} (hhome : t'.home = t.home)
    (hsub : rest ⊆ actions) :
    t'.Extends (t.DirectoryOf actions) (t.FileOf actions) (t'.perform rest).2 := by
  induction rest generalizing t' with
  | nil => exact .refl t'
  | cons action rest ih =>
    obtain ⟨hmem, hrest⟩ := List.cons_subset.1 hsub
    have hfirst := extends_act hhome hmem
    rw [perform_cons]
    split
    · rename_i u hrun
      rw [hrun] at hfirst
      exact hfirst.trans (ih (hfirst.home_eq.trans hhome) hrest)
    · rename_i fault u hrun
      rw [hrun] at hfirst
      exact hfirst

/-- Wherever changes stop, a tree has only gained what they make and write. -/
theorem extends_perform (t : FileTree) (actions : List FileAction) :
    t.Extends (t.DirectoryOf actions) (t.FileOf actions) (t.perform actions).2 :=
  extends_perform_of_subset rfl (List.Subset.refl actions)

/-- Changes can only succeed if no directory stands where one of them writes a file. -/
theorem hasDirectory_placeOf_of_perform_eq_ok {actions : List FileAction} {bytes : ByteArray}
    (h : t.perform actions = (.ok (), t')) (hmem : .write path bytes ∈ actions) :
    t.hasDirectory (t.placeOf path) = false := by
  induction actions generalizing t with
  | nil => cases hmem
  | cons action actions ih =>
    have hfirst := extends_act (t := t) rfl (List.mem_singleton_self action)
    rw [perform_cons] at h
    split at h
    · rename_i u hrun
      rw [hrun] at hfirst
      rcases List.mem_cons.1 hmem with rfl | hmem
      · rcases writeFile_cases t path bytes with ⟨fault, hfail⟩ | ⟨hno, -⟩
        · rw [act, hfail] at hrun
          cases hrun
        · exact hno
      · have hno := ih h hmem
        rw [placeOf_congr hfirst.home_eq] at hno
        rw [← Bool.not_eq_true] at hno ⊢
        exact fun hdir ↦ hno (hfirst.hasDirectory hdir)
    · cases h

/-- Changes that succeed leave a file wherever one of them writes one, and it holds what one of them
wrote there. -/
theorem exists_fileOf_of_perform_eq_ok {actions : List FileAction} {bytes : ByteArray}
    (h : t.perform actions = (.ok (), t')) (hmem : .write path bytes ∈ actions) :
    ∃ bytes', t'.node? (t.placeOf path) = some (.file bytes') ∧
      t.FileOf actions (t.placeOf path) bytes' := by
  induction actions generalizing t with
  | nil => cases hmem
  | cons action actions ih =>
    have hfirst := extends_act (t := t) rfl (List.mem_singleton_self action)
    rw [perform_cons] at h
    split at h
    · rename_i u hrun
      rw [hrun] at hfirst
      have hlater {q : Place} {bytes : ByteArray} (hq : u.FileOf actions q bytes) :
          t.FileOf (action :: actions) q bytes := by
        obtain ⟨path', hpath', hq⟩ := hq
        exact ⟨path', .tail _ hpath', hq.trans (placeOf_congr hfirst.home_eq path')⟩
      rcases List.mem_cons.1 hmem with rfl | hmem
      · rcases writeFile_cases t path bytes with ⟨fault, hfail⟩ | ⟨hno, hput⟩
        · rw [act, hfail] at hrun
          cases hrun
        · have hne : t.placeOf path ≠ [] := fun hnil ↦ by
            rw [hnil] at hno
            cases hno
          rw [act, hput] at hrun
          have hwritten : u.node? (t.placeOf path) = some (.file bytes) := by
            rw [← (Prod.mk.inj hrun).2, node?_put hne, if_pos rfl]
          have hrest := extends_perform u actions
          rw [h] at hrest
          rcases hrest.node (t.placeOf path) with hsame | ⟨hnone, -⟩ | ⟨-, bytes', hfile, hq⟩
          · exact ⟨bytes, hsame.trans hwritten, path, List.mem_cons_self, rfl⟩
          · rw [hwritten] at hnone
            cases hnone
          · exact ⟨bytes', hfile, hlater hq⟩
      · obtain ⟨bytes', hfile, hq⟩ := ih h hmem
        rw [placeOf_congr hfirst.home_eq] at hfile hq
        exact ⟨bytes', hfile, hlater hq⟩
    · cases h

/-- Changes that succeed leave a file wherever one of them writes one. -/
theorem exists_file_of_perform_eq_ok {actions : List FileAction} {bytes : ByteArray}
    (h : t.perform actions = (.ok (), t')) (hmem : .write path bytes ∈ actions) :
    ∃ bytes', t'.node? (t.placeOf path) = some (.file bytes') :=
  (exists_fileOf_of_perform_eq_ok h hmem).imp fun _ hfile ↦ hfile.1

/-- After changes that succeed a file holds what one of them wrote, or what it held if none of them
wrote it. -/
theorem node?_eq_file_iff_of_perform_eq_ok {actions : List FileAction} {bytes : ByteArray}
    (h : t.perform actions = (.ok (), t'))
    (hunique : ∀ b b', t.FileOf actions q b → t.FileOf actions q b' → b = b') :
    t'.node? q = some (.file bytes) ↔
      t.FileOf actions q bytes ∨
        (∀ b, ¬t.FileOf actions q b) ∧ t.node? q = some (.file bytes) := by
  have hgains := extends_perform t actions
  rw [h] at hgains
  constructor
  · intro hfile
    rcases hgains.node q with hsame | ⟨-, hdir, -⟩ | ⟨-, b, hfile', hq⟩
    · by_cases hwritten : ∃ b, t.FileOf actions q b
      · obtain ⟨b, path, hpath, rfl⟩ := hwritten
        obtain ⟨b', hfile', hq⟩ := exists_fileOf_of_perform_eq_ok h hpath
        rw [hfile] at hfile'
        cases hfile'
        exact .inl hq
      · exact .inr ⟨not_exists.1 hwritten, hsame ▸ hfile⟩
    · rw [hfile] at hdir
      cases hdir
    · rw [hfile] at hfile'
      cases hfile'
      exact .inl hq
  · rintro (⟨path, hpath, hplace⟩ | ⟨hnone, hfile⟩)
    · obtain ⟨b', hfile', hq⟩ := exists_fileOf_of_perform_eq_ok h hpath
      rw [← hplace] at hfile' hq
      rw [hfile', hunique b' bytes hq ⟨path, hpath, hplace⟩]
    · rcases hgains.node q with hsame | ⟨hno, -⟩ | ⟨-, b, -, hq⟩
      · exact hsame.trans hfile
      · rw [hfile] at hno
        cases hno
      · exact absurd hq (hnone b)

/-- Changes that fail were all made up to one that failed. -/
theorem exists_of_perform_eq_error {actions : List FileAction} {fault : FileFault}
    (h : t.perform actions = (.error fault, t')) :
    ∃ done action rest u, actions = done ++ action :: rest ∧ t.perform done = (.ok (), u) ∧
      u.perform [action] = (.error fault, t') := by
  induction actions generalizing t with
  | nil => cases h
  | cons action actions ih =>
    rw [perform_cons] at h
    split at h
    · rename_i u hrun
      obtain ⟨done, stopped, rest, v, rfl, hdone, hstopped⟩ := ih h
      refine ⟨action :: done, stopped, rest, v, rfl, ?_, hstopped⟩
      rw [perform_cons, hrun]
      exact hdone
    · rename_i failed u hrun
      refine ⟨[], action, actions, t, rfl, rfl, ?_⟩
      rw [perform_cons, hrun]
      exact h

end SongBundle.FileTree
