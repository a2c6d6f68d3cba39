import SongBundle.Proofs.Files.Clear

/-!
# What changes leave behind

Changes that succeed leave a closed tree closed (`Closed.of_perform`).  Wherever one of them makes a
directory there is one in the end (`hasDirectory_of_perform_eq_ok`).
-/

set_option autoImplicit false

namespace SongBundle.FileTree

variable {t u : FileTree} {place q : Place} {parts : List String} {path : String}

/-! ## Following a path -/

/-- Parts that lead to a directory pass nothing but directories. -/
theorem hasDirectory_of_follow (h : t.follow place parts = .ok q) (hq : t.hasDirectory q = true) :
    ∀ p ∈ walk place parts, t.hasDirectory p = true := by
  induction parts generalizing place with
  | nil =>
    obtain rfl : place = q := Except.ok.inj h
    simpa [walk] using hq
  | cons part parts ih =>
    obtain ⟨hplace, -, hrest⟩ := follow_cons_eq_ok_iff.1 h
    exact List.forall_mem_cons.2 ⟨hplace, ih hrest⟩

/-- A path that leads somewhere leads to its place. -/
theorem placeOf_of_resolve (h : t.resolve path = .ok q) : q = t.placeOf path := by
  rw [resolve] at h
  split at h
  · rw [placeOf, placeFrom_eq_foldl]
    exact follow_eq_foldl h
  · split at h <;> cases h

/-- A path that leads to a directory passes nothing but directories. -/
theorem hasDirectory_of_resolve (h : t.resolve path = .ok q) (hq : t.hasDirectory q = true) :
    ∀ p ∈ t.passes path, t.hasDirectory p = true := by
  rw [resolve] at h
  split at h
  · exact hasDirectory_of_follow h hq
  · split at h <;> cases h

theorem isDirectory_iff : t.isDirectory path = true ↔
    t.resolve path = .ok (t.placeOf path) ∧ t.hasDirectory (t.placeOf path) = true := by
  rw [isDirectory, find, hasDirectory_iff]
  cases hpath : t.resolve path with
  | error fault => exact ⟨fun h ↦ (nomatch h), fun h ↦ (nomatch h.1)⟩
  | ok q =>
    obtain rfl := placeOf_of_resolve hpath
    simp only [bind, Except.bind, true_and]
    cases t.node? (t.placeOf path) with
    | none => exact ⟨fun h ↦ (nomatch h), fun h ↦ (nomatch h)⟩
    | some node =>
      cases node with
      | directory => exact ⟨fun _ ↦ rfl, fun _ ↦ rfl⟩
      | file bytes => exact ⟨fun h ↦ (nomatch h), fun h ↦ (nomatch h)⟩

theorem hasDirectory_of_isDirectory (h : t.isDirectory path = true) :
    ∀ q ∈ t.passes path, t.hasDirectory q = true :=
  hasDirectory_of_resolve (isDirectory_iff.1 h).1 (isDirectory_iff.1 h).2

/-- What could be followed still can be when there is more in a tree. -/
theorem follow_mono (hdirs : ∀ p, t.hasDirectory p = true → u.hasDirectory p = true)
    (hnodes : ∀ p, (t.node? p).isSome = true → (u.node? p).isSome = true)
    (h : t.follow place parts = .ok q) : u.follow place parts = .ok q := by
  induction parts generalizing place with
  | nil => exact h
  | cons part parts ih =>
    obtain ⟨hplace, hnext, hrest⟩ := follow_cons_eq_ok_iff.1 h
    refine follow_cons_eq_ok_iff.2 ⟨hdirs _ hplace, fun hmove hup ↦ ?_, ih hrest⟩
    exact (hnext hmove hup).imp_right (hnodes _)

/-- A path that leads to a directory still does when there is more in a tree. -/
theorem Extends.isDirectory {dirs : Place → Prop} {files : Place → ByteArray → Prop}
    (h : t.Extends dirs files u) (hpath : t.isDirectory path = true) :
    u.isDirectory path = true := by
  obtain ⟨hresolve, hdir⟩ := isDirectory_iff.1 hpath
  have hsome (p : Place) (hp : (t.node? p).isSome = true) : (u.node? p).isSome = true := by
    rcases h.node p with hsame | ⟨hnone, -⟩ | ⟨-, _, hfile, -⟩
    · rw [hsame]
      exact hp
    · simp [hnone] at hp
    · simp [hfile]
  rw [isDirectory_iff, placeOf_congr h.home_eq]
  refine ⟨?_, h.hasDirectory hdir⟩
  rw [resolve] at hresolve ⊢
  split at hresolve
  · rename_i husable
    rw [if_pos husable, origin, h.home_eq]
    exact follow_mono (fun p ↦ h.hasDirectory) hsome hresolve
  · split at hresolve <;> cases hresolve

/-! ## Making directories -/

/-- When directories were made, they are all there. -/
theorem Closed.of_makeFrom (hclosed : t.Closed) (hplace : t.hasDirectory place = true)
    (h : (makeFrom place parts).run t = (.ok q, u)) :
    u.Closed ∧ ∀ p ∈ walk place parts, u.hasDirectory p = true := by
  induction parts generalizing t place with
  | nil =>
    obtain ⟨-, rfl⟩ := Prod.mk.inj h
    exact ⟨hclosed, by simpa [walk] using hplace⟩
  | cons part parts ih =>
    -- the first place is a directory in the end because nothing that was made is removed
    have hfirst : u.hasDirectory place = true := by
      have hextends : t.Extends _ (fun _ _ ↦ False) _ := extends_makeFrom t place (part :: parts)
      rw [h] at hextends
      exact hextends.hasDirectory hplace
    suffices hrest : u.Closed ∧ ∀ p ∈ walk (step place part) parts, u.hasDirectory p = true from
      ⟨hrest.1, List.forall_mem_cons.2 ⟨hfirst, hrest.2⟩⟩
    rw [run_makeFrom_cons] at h
    rw [step]
    split at h
    · rename_i hstay
      rw [if_pos hstay]
      exact ih hclosed hplace h
    · rename_i hmove
      rw [if_neg hmove]
      split at h
      · rename_i hup
        rw [if_pos hup]
        exact ih hclosed (hclosed.dropLast hplace) h
      · rename_i hdown
        rw [if_neg hdown]
        split at h
        · rename_i hnode
          exact ih hclosed (hasDirectory_iff.2 hnode) h
        · cases h
        · split at h
          · refine ih (hclosed.put hplace fun _ ↦ rfl) ?_ h
            rw [hasDirectory_iff, node?_put (by simp), if_pos rfl]
          · cases h

/-- How a directory comes to be made: for no path there is nothing to do, a path that ends in `.` has
to lead to a directory once those above it are made, and of any other path all parts are made. -/
theorem makeDirectories_cases (h : (makeDirectories path).run t = (.ok (), u)) :
    path = "" ∧ u = t ∨
      (∃ q, (makeFrom (t.origin path) (Path.parts path)).run t = (.ok q, u)) ∨
      ∃ q place,
        (makeFrom (t.origin path) (trimParts (Path.parts path)).dropLast).run t = (.ok q, u) ∧
          u.resolve path = .ok place ∧ u.hasDirectory place = true := by
  rw [makeDirectories] at h
  split at h
  · rename_i hempty
    exact .inl ⟨hempty, (Prod.mk.inj h).2.symm⟩
  split at h
  · cases h
  rw [run_get_bind] at h
  dsimp only at h
  split at h
  · cases h
  split at h
  · rw [run_bind] at h
    split at h
    · rename_i q v hmake
      rw [run_get_bind, run_bind, run_lift] at h
      cases hresolve : v.resolve path with
      | error fault =>
        rw [hresolve] at h
        cases h
      | ok place =>
        rw [hresolve] at h
        dsimp only at h
        split at h
        · cases h
        · rename_i hdir
          obtain ⟨-, rfl⟩ := Prod.mk.inj h
          exact .inr (.inr ⟨q, place, hmake, hresolve, by simpa using hdir⟩)
    · cases h
  · rw [run_bind] at h
    split at h
    · rename_i q v hmake
      obtain ⟨-, rfl⟩ := Prod.mk.inj h
      exact .inr (.inl ⟨q, hmake⟩)
    · cases h

theorem Closed.of_makeDirectories (hclosed : t.Closed)
    (h : (makeDirectories path).run t = (.ok (), u)) :
    u.Closed ∧ ∀ q ∈ t.passes path, u.hasDirectory q = true := by
  have hhome : u.home = t.home := by
    have hextends : t.Extends _ (fun _ _ ↦ False) _ := extends_makeDirectories t path
    rw [h] at hextends
    exact hextends.home_eq
  rcases makeDirectories_cases h with ⟨rfl, rfl⟩ | ⟨q, hmake⟩ | ⟨q, place, hmake, hresolve, hdir⟩
  · have hpasses : u.passes "" = [u.home, u.home] := rfl
    refine ⟨hclosed, fun q hq ↦ ?_⟩
    obtain rfl : q = u.home := by simpa [hpasses] using hq
    exact hclosed.home
  · exact hclosed.of_makeFrom (hclosed.origin path) hmake
  · refine ⟨(hclosed.of_makeFrom (hclosed.origin path) hmake).1, ?_⟩
    rw [← passes_congr hhome]
    exact hasDirectory_of_resolve hresolve hdir

/-! ## Runs -/

theorem Closed.of_writeFile {bytes : ByteArray} (hclosed : t.Closed)
    (h : (writeFile path bytes).run t = (.ok (), u)) : u.Closed := by
  rw [run_writeFile] at h
  split at h
  · cases h
  split at h
  · cases h
  split at h
  · cases h
  · cases h
  · rename_i place name _ _
    split at h
    · cases h
    · rename_i hplace
      split at h
      · cases h
      split at h
      · cases h
      split at h
      · cases h
      · rename_i hno
        obtain ⟨-, rfl⟩ := Prod.mk.inj h
        exact hclosed.put (by simpa using hplace) fun hdir ↦ absurd hdir hno

theorem Closed.of_act {action : FileAction} (hclosed : t.Closed)
    (h : (act action).run t = (.ok (), u)) : u.Closed := by
  cases action with
  | makeDirectories path => exact (hclosed.of_makeDirectories h).1
  | write path bytes => exact hclosed.of_writeFile h

variable {actions : List FileAction}

/-- Changes that succeed leave a closed tree closed. -/
theorem Closed.of_perform (hclosed : t.Closed) (h : t.perform actions = (.ok (), u)) :
    u.Closed := by
  induction actions generalizing t with
  | nil =>
    obtain ⟨-, rfl⟩ := Prod.mk.inj h
    exact hclosed
  | cons action actions ih =>
    rw [perform_cons] at h
    split at h
    · rename_i hrun
      exact ih (hclosed.of_act hrun) h
    · cases h

/-- Changes that succeed leave a directory wherever one of them makes one. -/
theorem hasDirectory_of_perform_eq_ok (hclosed : t.Closed) (h : t.perform actions = (.ok (), u))
    (hq : t.DirectoryOf actions q) : u.hasDirectory q = true := by
  induction actions generalizing t with
  | nil =>
    obtain ⟨path, hpath, -⟩ := hq
    cases hpath
  | cons action actions ih =>
    have hfirst := extends_act (t := t) rfl (List.mem_singleton_self action)
    rw [perform_cons] at h
    split at h
    · rename_i v hrun
      rw [hrun] at hfirst
      obtain ⟨path, hpath, hpasses⟩ := hq
      rcases List.mem_cons.1 hpath with rfl | hpath
      · have hrest := extends_perform v actions
        rw [h] at hrest
        exact hrest.hasDirectory ((hclosed.of_makeDirectories hrun).2 q hpasses)
      · refine ih (hclosed.of_act hrun) h ⟨path, hpath, ?_⟩
        rwa [passes_congr hfirst.home_eq]
    · cases h

end SongBundle.FileTree
