import SongBundle.Proofs.Files.Path
import SongBundle.Proofs.Files.Tree

/-!
# When changes cannot fail

Changes succeed if their way is clear (`FileTree.Clear`): every path has a name that files can have,
no file stands or is written where a directory is needed, and no directory stands where a file goes.
Besides, the directory of every file has to be made before (`FileTree.Prepared`).

* `exists_makeFrom`, `follow_of_directories` and `exists_writeFile` say what a single change needs.
* `Clear.exists_act` is the step and `Clear.perform` the run.  The invariant is
  `FileTree.Underway`: all directories due so far are there, and the tree has not gained anything
  but what the changes make and write.
-/

set_option autoImplicit false

namespace SongBundle

/-- The path that a change is about. -/
def FileAction.path : FileAction → String
  | .makeDirectories path => path
  | .write path _ => path

/-- Files can have a path, all its parts and the name it ends in. -/
structure Path.Valid (path : String) : Prop where
  usable : Path.isUsable path = true
  parts : ∀ part ∈ Path.parts path, Path.isUsablePart part = true
  last : ∃ front name, Path.parts path = front ++ [name] ∧ name ≠ "" ∧ name ≠ "." ∧ name ≠ ".."

theorem Path.Valid.ne_empty {path : String} (h : Path.Valid path) : path ≠ "" := by
  have husable := h.usable
  rw [Path.isUsable, Bool.and_eq_true, Bool.and_eq_true] at husable
  exact of_decide_eq_true husable.1.1

theorem Path.valid_iff {path : String} :
    Path.Valid path ↔
      Path.isUsable path = true ∧ (∀ part ∈ Path.parts path, Path.isUsablePart part = true) ∧
        ∀ name ∈ (Path.parts path).getLast?, name ≠ "" ∧ name ≠ "." ∧ name ≠ ".." := by
  constructor
  · rintro ⟨husable, hparts, front, name, hlast, hname⟩
    refine ⟨husable, hparts, ?_⟩
    rw [hlast, List.getLast?_concat]
    rintro _ ⟨⟩
    exact hname
  · rintro ⟨husable, hparts, hname⟩
    have hlast := List.dropLast_concat_getLast (Path.parts_ne_nil path)
    exact ⟨husable, hparts, _, _, hlast.symm, hname _ (List.getLast?_eq_some_getLast _)⟩

/-- A path can be had if one can be had that goes on from it, provided that it ends in a name. -/
theorem Path.Valid.of_append {path rest : String} (h : Path.Valid (path ++ "/" ++ rest))
    (hlast : ∃ front name, Path.parts path = front ++ [name] ∧ name ≠ "" ∧ name ≠ "." ∧
      name ≠ "..") : Path.Valid path := by
  refine ⟨?_, fun part hpart ↦ h.parts part ?_, hlast⟩
  · have husable := h.usable
    have hempty : path ≠ "" := by
      rintro rfl
      obtain ⟨front, name, hparts, hname, -⟩ := hlast
      have hmem : name ∈ Path.parts "" := hparts ▸ List.mem_append_right _ List.mem_cons_self
      exact hname (List.mem_singleton.1 hmem)
    rw [Path.isUsable, Bool.and_eq_true, Bool.and_eq_true, Bool.not_eq_true', ← Bool.not_eq_true,
      List.contains_iff_mem, decide_eq_true_eq, decide_eq_true_eq, String.utf8ByteSize_append,
      String.utf8ByteSize_append, String.toList_append, String.toList_append] at husable
    rw [Path.isUsable, Bool.and_eq_true, Bool.and_eq_true, Bool.not_eq_true', ← Bool.not_eq_true,
      List.contains_iff_mem, decide_eq_true_eq, decide_eq_true_eq]
    refine ⟨⟨hempty, by omega⟩, fun hzero ↦ husable.2 ?_⟩
    exact List.mem_append_left _ (List.mem_append_left _ hzero)
  · rw [Path.parts_append_slash]
    exact List.mem_append_left _ hpart

instance {path : String} : Decidable (Path.Valid path) := decidable_of_iff _ Path.valid_iff.symm

namespace FileTree

variable {t t' : FileTree} {place q : Place} {parts : List String} {path : String}

/-! ## Closed trees -/

/-- Everything stands in a directory. -/
structure Closed (t : FileTree) : Prop where
  home : t.hasDirectory t.home = true
  parent : ∀ place name, (t.node? (place ++ [name])).isSome = true → t.hasDirectory place = true

theorem Closed.dropLast (h : t.Closed) (hplace : t.hasDirectory place = true) :
    t.hasDirectory place.dropLast = true := by
  rcases List.eq_nil_or_concat place with rfl | ⟨front, name, rfl⟩
  · exact hplace
  · rw [List.concat_eq_append] at *
    rw [List.dropLast_concat]
    exact h.parent front name (by rw [hasDirectory_iff.1 hplace]; rfl)

theorem Closed.origin (h : t.Closed) (path : String) : t.hasDirectory (t.origin path) = true := by
  rw [FileTree.origin]
  split
  · rfl
  · exact h.home

/-- Something new in a directory leaves a tree closed, if it does not replace another directory. -/
theorem Closed.put {name : String} {node : FileNode} (h : t.Closed)
    (hplace : t.hasDirectory place = true)
    (hnode : t.hasDirectory (place ++ [name]) = true → node = .directory) :
    (t.put (place ++ [name]) node).Closed := by
  have hne : place ++ [name] ≠ [] := by simp
  have hkeep (q : Place) (hq : t.hasDirectory q = true) :
      (t.put (place ++ [name]) node).hasDirectory q = true := by
    rw [hasDirectory_iff, node?_put hne]
    by_cases heq : q = place ++ [name]
    · rw [if_pos heq, hnode (heq ▸ hq)]
    · rw [if_neg heq]
      exact hasDirectory_iff.1 hq
  refine ⟨hkeep _ h.home, fun place' name' hsome ↦ hkeep _ ?_⟩
  rw [node?_put hne] at hsome
  by_cases heq : place' ++ [name'] = place ++ [name]
  · rw [(List.append_inj' heq rfl).1]
    exact hplace
  · rw [if_neg heq] at hsome
    exact h.parent place' name' hsome

/-! ## Single changes -/

/-- A part that leads to no file is followed, at most after a directory is made. -/
theorem exists_run_makeFrom_cons {part : String} (parts : List String) (hclosed : t.Closed)
    (hplace : t.hasDirectory place = true) (husable : Path.isUsablePart part = true)
    (hfree : ∀ bytes, t.node? (step place part) ≠ some (.file bytes)) :
    ∃ u : FileTree, (makeFrom place (part :: parts)).run t =
        (makeFrom (step place part) parts).run u ∧
      u.Closed ∧ u.hasDirectory (step place part) = true ∧
      t.Extends (fun _ ↦ True) (fun _ _ ↦ False) u := by
  rw [run_makeFrom_cons]
  rw [step] at hfree ⊢
  by_cases hstay : part = "" ∨ part = "."
  · rw [if_pos hstay, if_pos hstay]
    exact ⟨t, rfl, hclosed, hplace, .refl t⟩
  by_cases hup : part = ".."
  · rw [if_neg hstay, if_neg hstay, if_pos hup, if_pos hup]
    exact ⟨t, rfl, hclosed, hclosed.dropLast hplace, .refl t⟩
  rw [if_neg hstay, if_neg hup] at hfree ⊢
  rw [if_neg hstay, if_neg hup]
  cases hnode : t.node? (place ++ [part]) with
  | some node =>
    cases node with
    | directory => exact ⟨t, rfl, hclosed, hasDirectory_iff.2 hnode, .refl t⟩
    | file bytes => exact absurd hnode (hfree bytes)
  | none =>
    refine ⟨t.put (place ++ [part]) .directory, if_pos husable, hclosed.put hplace fun _ ↦ rfl, ?_,
      extends_put_directory hnode trivial⟩
    rw [hasDirectory_iff, node?_put (by simp), if_pos rfl]

/-- A tree without new files has the files that were there. -/
theorem Extends.node?_ne_file {dirs : Place → Prop}
    (h : t.Extends dirs (fun _ _ ↦ False) t') (hq : ∀ bytes, t.node? q ≠ some (.file bytes)) :
    ∀ bytes, t'.node? q ≠ some (.file bytes) := by
  intro bytes hfile
  rcases h.node q with hsame | ⟨-, hdir, -⟩ | ⟨-, _, -, hfalse⟩
  · exact hq bytes (hsame ▸ hfile)
  · rw [hfile] at hdir
    cases hdir
  · exact hfalse

/-- Directories can be made where no file stands, and then they are all there. -/
theorem exists_makeFrom (hclosed : t.Closed) (hplace : t.hasDirectory place = true)
    (husable : ∀ part ∈ parts, Path.isUsablePart part = true)
    (hfree : ∀ q ∈ walk place parts, ∀ bytes, t.node? q ≠ some (.file bytes)) :
    ∃ q u, (makeFrom place parts).run t = (.ok q, u) ∧ u.Closed ∧
      ∀ q ∈ walk place parts, u.hasDirectory q = true := by
  induction parts generalizing t place with
  | nil => exact ⟨place, t, rfl, hclosed, by simpa [walk] using hplace⟩
  | cons part parts ih =>
    obtain ⟨hpart, hparts⟩ := List.forall_mem_cons.1 husable
    rw [walk, List.forall_mem_cons] at hfree
    obtain ⟨u, hrun, hclosed', hstep, hextends⟩ :=
      exists_run_makeFrom_cons parts hclosed hplace hpart (hfree.2 _ mem_walk_start)
    obtain ⟨q, v, hrest, hv, hdirs⟩ :=
      ih hclosed' hstep hparts fun q hq ↦ hextends.node?_ne_file (hfree.2 q hq)
    refine ⟨q, v, hrun.trans hrest, hv, List.forall_mem_cons.2 ⟨?_, hdirs⟩⟩
    have hmore : u.Extends _ (fun _ _ ↦ False) _ := extends_makeFrom u (step place part) parts
    rw [hrest] at hmore
    exact hmore.hasDirectory (hextends.hasDirectory hplace)

/-- Parts that pass no file do not reach one. -/
theorem reachesFile_eq_false (hclosed : t.Closed) (hplace : t.hasDirectory place = true)
    (hfree : ∀ q ∈ walk place parts, ∀ bytes, t.node? q ≠ some (.file bytes)) :
    t.reachesFile place parts = false := by
  induction parts generalizing place with
  | nil => simp [reachesFile, follow, hplace]
  | cons part parts ih =>
    rw [walk, List.forall_mem_cons] at hfree
    rw [reachesFile, follow, hasDirectory_iff.1 hplace]
    dsimp only
    rw [step] at hfree
    by_cases hstay : part = "" ∨ part = "."
    · rw [if_pos hstay] at hfree ⊢
      exact ih hplace hfree.2
    rw [if_neg hstay] at hfree ⊢
    by_cases hup : part = ".."
    · rw [if_pos hup] at hfree ⊢
      exact ih (hclosed.dropLast hplace) hfree.2
    rw [if_neg hup] at hfree ⊢
    by_cases husable : Path.isUsablePart part = true
    · rw [if_neg (by simp [husable])]
      cases hnode : t.node? (place ++ [part]) with
      | none => rfl
      | some node =>
        cases node with
        | directory => exact ih (hasDirectory_iff.2 hnode) hfree.2
        | file bytes => exact absurd hnode (hfree.2 _ mem_walk_start bytes)
    · rw [if_pos (by simp [husable])]
      rfl

/-- A path that ends in a name is not cut off before a directory is made. -/
theorem exists_makeDirectories (hclosed : t.Closed) (hvalid : Path.Valid path)
    (hfree : ∀ q ∈ t.passes path, ∀ bytes, t.node? q ≠ some (.file bytes)) :
    ∃ u : FileTree, (makeDirectories path).run t = (.ok (), u) ∧ u.Closed ∧
      ∀ q ∈ t.passes path, u.hasDirectory q = true := by
  obtain ⟨front, name, hparts, hempty, hdot, -⟩ := hvalid.last
  have hend : endsInDot (Path.parts path) = false := by
    rw [endsInDot, hparts, List.reverse_concat, List.find?_cons_of_pos (by simpa using hempty)]
    simpa using hdot
  obtain ⟨q, u, hrun, hclosed', hdirs⟩ :=
    exists_makeFrom hclosed (hclosed.origin path) hvalid.parts hfree
  refine ⟨u, ?_, hclosed', hdirs⟩
  have hreaches := reachesFile_eq_false hclosed (hclosed.origin path) fun q hq ↦
    hfree q (mem_walk_of_isPrefix (leadingParts_isPrefix (Path.parts path)) hq)
  rw [makeDirectories, if_neg hvalid.ne_empty, if_neg (by simp [hvalid.usable]), run_get_bind]
  dsimp only
  rw [hreaches, if_neg Bool.false_ne_true, hend, if_neg Bool.false_ne_true, run_bind, hrun]
  rfl

/-- Parts that pass nothing but directories can be followed. -/
theorem follow_of_directories (husable : ∀ part ∈ parts, Path.isUsablePart part = true)
    (hdirs : ∀ q ∈ walk place parts, t.hasDirectory q = true) :
    t.follow place parts = .ok (parts.foldl step place) := by
  induction parts generalizing place with
  | nil => rfl
  | cons part parts ih =>
    obtain ⟨hpart, hparts⟩ := List.forall_mem_cons.1 husable
    rw [walk, List.forall_mem_cons] at hdirs
    have hrest := ih hparts hdirs.2
    have hnext := hasDirectory_iff.1 (hdirs.2 _ mem_walk_start)
    rw [follow, hasDirectory_iff.1 hdirs.1]
    dsimp only
    rw [List.foldl_cons]
    rw [step] at hnext hrest ⊢
    by_cases hstay : part = "" ∨ part = "."
    · rw [if_pos hstay] at hrest ⊢
      rw [if_pos hstay]
      exact hrest
    by_cases hup : part = ".."
    · rw [if_neg hstay, if_pos hup] at hrest ⊢
      rw [if_neg hstay, if_pos hup]
      exact hrest
    rw [if_neg hstay, if_neg hup] at hrest hnext ⊢
    rw [if_neg hstay, if_neg hup, if_neg (by simp [hpart]), hnext, if_neg (by simp)]
    exact hrest

/-- A file can be written into a directory, unless there is a directory in its place. -/
theorem exists_writeFile (bytes : ByteArray) (hclosed : t.Closed) (hvalid : Path.Valid path)
    (hdirs : ∀ q ∈ walk (t.origin path) (Path.parts path).dropLast, t.hasDirectory q = true)
    (hno : t.hasDirectory (t.placeOf path) = false) :
    ∃ u : FileTree, (writeFile path bytes).run t = (.ok (), u) ∧ u.Closed := by
  obtain ⟨front, name, hparts, hempty, hdot, hdots⟩ := hvalid.last
  have husable := hvalid.parts
  rw [hparts, List.forall_mem_append, List.forall_mem_singleton] at husable
  rw [hparts, List.dropLast_concat] at hdirs
  have hfollow := follow_of_directories husable.1 hdirs
  have hplace := hdirs _ (foldl_step_mem_walk _ _)
  rw [placeOf, placeFrom_eq_foldl, hparts, List.foldl_append, List.foldl_cons, List.foldl_nil, step,
    if_neg (by simp [hempty, hdot]), if_neg hdots] at hno
  refine ⟨t.put ((front.foldl step (t.origin path)) ++ [name]) (.file bytes), ?_,
    hclosed.put hplace fun h ↦ ?_⟩
  · rw [run_writeFile, if_neg hvalid.ne_empty, if_neg (by simp [hvalid.usable]), hparts,
      List.dropLast_concat, hfollow, List.getLast?_concat]
    simp [hplace, hempty, hdot, hdots, husable.2, hno]
  · rw [hno] at h
    cases h

/-! ## Runs -/

/-- The way of changes is clear in a tree. -/
structure Clear (t : FileTree) (actions : List FileAction) : Prop where
  valid : ∀ action ∈ actions, Path.Valid action.path
  /-- Where a directory is needed no file stands, and none is written. -/
  no_file : ∀ q, t.DirectoryOf actions q →
    (∀ bytes, t.node? q ≠ some (.file bytes)) ∧ ∀ bytes, ¬t.FileOf actions q bytes
  /-- Where a file goes no directory stands. -/
  no_directory : ∀ q bytes, t.FileOf actions q bytes → t.hasDirectory q = false

/-- Directories stand at some places only, and files only at others. -/
structure Divided (t : FileTree) (S : Place → Prop) : Prop where
  directory : ∀ q, t.node? q = some .directory → S q
  file : ∀ q bytes, t.node? q = some (.file bytes) → ¬S q

/-- The way is clear for changes that keep directories and files apart as the tree does. -/
theorem Divided.clear {S : Place → Prop} {actions : List FileAction} (h : t.Divided S)
    (hvalid : ∀ action ∈ actions, Path.Valid action.path)
    (hdirs : ∀ q, t.DirectoryOf actions q → S q)
    (hfiles : ∀ q bytes, t.FileOf actions q bytes → ¬S q) : t.Clear actions := by
  refine ⟨hvalid, fun q hq ↦ ⟨fun bytes hfile ↦ h.file q bytes hfile (hdirs q hq), fun bytes hfile ↦
    hfiles q bytes hfile (hdirs q hq)⟩, fun q bytes hq ↦ ?_⟩
  rw [← Bool.not_eq_true, hasDirectory_iff]
  exact fun hdir ↦ hfiles q bytes hq (h.directory q hdir)

theorem Extends.divided {S : Place → Prop} {dirs : Place → Prop} {files : Place → ByteArray → Prop}
    (h : t.Extends dirs files t') (ht : t.Divided S) (hdirs : ∀ q, dirs q → S q)
    (hfiles : ∀ q bytes, files q bytes → ¬S q) : t'.Divided S := by
  refine ⟨fun q hdir ↦ ?_, fun q bytes hfile ↦ ?_⟩
  · rcases h.node q with hsame | ⟨-, -, hq⟩ | ⟨-, _, hfile, -⟩
    · exact ht.directory q (hsame ▸ hdir)
    · exact hdirs q hq
    · rw [hdir] at hfile
      cases hfile
  · rcases h.node q with hsame | ⟨-, hdir, -⟩ | ⟨-, b, -, hq⟩
    · exact ht.file q bytes (hsame ▸ hfile)
    · rw [hfile] at hdir
      cases hdir
    · exact hfiles q b hq

/-- A file that is written after some changes goes into a directory that is there or that they
make. -/
def Ready (t : FileTree) (done : List FileAction) (action : FileAction) : Prop :=
  ∀ path bytes, action = .write path bytes →
    ∀ q ∈ walk (t.origin path) (Path.parts path).dropLast,
      t.hasDirectory q = true ∨ t.DirectoryOf done q

/-- After some changes others follow, each of which is ready when its turn comes. -/
def Prepared (t : FileTree) : List FileAction → List FileAction → Prop
  | _, [] => True
  | done, action :: rest => t.Ready done action ∧ t.Prepared (done ++ [action]) rest

theorem prepared_append {done as bs : List FileAction} :
    t.Prepared done (as ++ bs) ↔ t.Prepared done as ∧ t.Prepared (done ++ as) bs := by
  induction as generalizing done with
  | nil => simp [Prepared]
  | cons a as ih =>
    rw [List.cons_append, Prepared, Prepared, ih, and_assoc, List.append_assoc,
      List.singleton_append]

theorem prepared_of_directories {done as : List FileAction}
    (h : ∀ path bytes, .write path bytes ∉ as) : t.Prepared done as := by
  induction as generalizing done with
  | nil => trivial
  | cons a as ih =>
    refine ⟨fun path bytes ha ↦ ?_, ih fun path bytes ha ↦ h path bytes (.tail _ ha)⟩
    exact absurd (ha ▸ List.mem_cons_self) (h path bytes)

/-- The parts of a path but the last pass nothing but what is there and what its parent passes. -/
theorem Closed.hasDirectory_or_mem_passes_parent (h : t.Closed)
    (hq : q ∈ walk (t.origin path) (Path.parts path).dropLast) :
    t.hasDirectory q = true ∨ q ∈ t.passes (Path.parent path) := by
  rcases Path.parent_cases path with ⟨hempty, -⟩ | ⟨hparts, hstart⟩
  · exact .inl (eq_of_mem_walk hempty hq ▸ h.origin path)
  · exact .inr (by rwa [passes, hparts, FileTree.origin, hstart])

section

variable {actions : List FileAction}

/-- Where a directory is needed there is still no file after some of the changes. -/
theorem Clear.node?_ne_file (h : t.Clear actions)
    (hextends : t.Extends (t.DirectoryOf actions) (t.FileOf actions) t')
    (hq : t.DirectoryOf actions q) : ∀ bytes, t'.node? q ≠ some (.file bytes) := by
  intro bytes hfile
  obtain ⟨hno, hnone⟩ := h.no_file q hq
  rcases hextends.node q with hsame | ⟨-, hdir, -⟩ | ⟨-, bytes', -, hwritten⟩
  · exact hno bytes (hsame ▸ hfile)
  · rw [hfile] at hdir
    cases hdir
  · exact hnone bytes' hwritten

/-- Where a file goes there is still no directory after some of the changes. -/
theorem Clear.hasDirectory_eq_false (h : t.Clear actions) {bytes : ByteArray}
    (hextends : t.Extends (t.DirectoryOf actions) (t.FileOf actions) t')
    (hq : t.FileOf actions q bytes) : t'.hasDirectory q = false := by
  rw [← Bool.not_eq_true, hasDirectory_iff]
  intro hdir
  rcases hextends.node q with hsame | ⟨-, -, hmade⟩ | ⟨-, _, hfile, -⟩
  · have hno := h.no_directory q bytes hq
    rw [hasDirectory_iff.2 (hsame ▸ hdir)] at hno
    cases hno
  · exact (h.no_file q hmade).2 bytes hq
  · rw [hdir] at hfile
    cases hfile

/-- Of a tree that some of the changes have led to: nothing has been gained that is not theirs, and
their directories are there. -/
structure Underway (t : FileTree) (actions done : List FileAction) (u : FileTree) : Prop where
  closed : u.Closed
  gains : t.Extends (t.DirectoryOf actions) (t.FileOf actions) u
  made : ∀ q, t.DirectoryOf done q → u.hasDirectory q = true

/-- The next change succeeds. -/
theorem Clear.exists_act (h : t.Clear actions) {done : List FileAction} {u : FileTree}
    (hu : t.Underway actions done u) {action : FileAction} (hmem : action ∈ actions)
    (hready : t.Ready done action) :
    ∃ v, (act action).run u = (.ok (), v) ∧ t.Underway actions (done ++ [action]) v := by
  have hact := extends_act hu.gains.home_eq hmem
  cases action with
  | makeDirectories path =>
    have hneeded : ∀ q ∈ u.passes path, t.DirectoryOf actions q := fun q hq ↦
      ⟨path, hmem, passes_congr hu.gains.home_eq path ▸ hq⟩
    have hvalid : Path.Valid path := h.valid _ hmem
    obtain ⟨v, hrun, hclosed, hdirs⟩ := exists_makeDirectories hu.closed hvalid fun q hq ↦
      h.node?_ne_file hu.gains (hneeded q hq)
    rw [act, hrun] at hact
    refine ⟨v, hrun, hclosed, hu.gains.trans hact, ?_⟩
    rintro q ⟨path', hpath', hq⟩
    rcases List.mem_append.1 hpath' with hpath' | hpath'
    · exact hact.hasDirectory (hu.made q ⟨path', hpath', hq⟩)
    · obtain rfl : path' = path := by simpa using hpath'
      exact hdirs q (passes_congr hu.gains.home_eq path' ▸ hq)
  | write path bytes =>
    have hparents : ∀ q ∈ walk (u.origin path) (Path.parts path).dropLast,
        u.hasDirectory q = true := by
      intro q hq
      rw [origin, hu.gains.home_eq] at hq
      rcases hready path bytes rfl q hq with hq | hq
      · exact hu.gains.hasDirectory hq
      · exact hu.made q hq
    have hno := h.hasDirectory_eq_false hu.gains
      ⟨path, hmem, placeOf_congr hu.gains.home_eq path⟩
    have hvalid : Path.Valid path := h.valid _ hmem
    obtain ⟨v, hrun, hclosed⟩ := exists_writeFile bytes hu.closed hvalid hparents hno
    rw [act, hrun] at hact
    refine ⟨v, hrun, hclosed, hu.gains.trans hact, ?_⟩
    rintro q ⟨path', hpath', hq⟩
    rcases List.mem_append.1 hpath' with hpath' | hpath'
    · exact hact.hasDirectory (hu.made q ⟨path', hpath', hq⟩)
    · simp at hpath'

theorem Clear.perform_rest (h : t.Clear actions) {done rest : List FileAction}
    (hprepared : t.Prepared done rest) (hactions : actions = done ++ rest) {u : FileTree}
    (hu : t.Underway actions done u) : ∃ v, u.perform rest = (.ok (), v) := by
  induction rest generalizing done u with
  | nil => exact ⟨u, rfl⟩
  | cons action rest ih =>
    obtain ⟨v, hrun, hv⟩ := h.exists_act hu (by simp [hactions]) hprepared.1
    rw [perform_cons, hrun]
    exact ih hprepared.2 (by simp [hactions]) hv

/-- **Changes whose way is clear succeed.** -/
theorem Clear.perform (h : t.Clear actions) (hclosed : t.Closed)
    (hprepared : t.Prepared [] actions) : ∃ u, t.perform actions = (.ok (), u) := by
  refine h.perform_rest hprepared (List.nil_append actions).symm ⟨hclosed, .refl t, ?_⟩
  rintro q ⟨path, hpath, -⟩
  exact absurd hpath List.not_mem_nil

end

end FileTree

end SongBundle
