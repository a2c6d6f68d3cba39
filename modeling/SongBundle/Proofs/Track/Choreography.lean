import SongBundle.Proofs.Library.Calls
import SongBundle.Proofs.Track.Filling

/-!
# Which moves are danced

The moves of a level are listed by measure.  An event that is listed again for its measure is
replaced, so that it is neither danced nor looked up; every other one is danced from its measure on.

* `Danced` and `Survives` say which events these are; `mem_values_of_densifyMoves` says that they are
  what a track of moves is made of.
* `Thinned.densifyMoves` is about leaving out events that are replaced.
* `Session.asked_resolveTrack` and `Session.count_moveLoads_resolveTrack` say what a session asks its
  library for while it resolves a track.
* `compileMoves_surviving` puts this together.
-/

set_option autoImplicit false

namespace SongBundle

/-! ## Events that count -/

/-- The event in force at an index.  Measures are counted from one and indices from zero. -/
def Danced (events : List MoveEvent) (i : UInt32) (e : MoveEvent) : Prop :=
  InForce (·.measure.toNat) events (i.toNat + 1) e

/-- An event is listed, and nothing is listed after it for its measure. -/
def Survives (events : List MoveEvent) (e : MoveEvent) : Prop :=
  ∃ before after, events = before ++ e :: after ∧ ∀ e' ∈ after, e'.measure ≠ e.measure

variable {events kept : List MoveEvent} {level : Difficulty} {e : MoveEvent} {i : UInt32}
variable {t : Track MoveEvent}

theorem Danced.survives (h : Danced events i e) : Survives events e := by
  obtain ⟨before, after, hsplit, -, -, hafter⟩ := h
  exact ⟨before, after, hsplit, fun e' he' heq ↦ hafter e' he' (congrArg UInt32.toNat heq)⟩

theorem Danced.measure_le (h : Danced events i e) : e.measure.toNat ≤ i.toNat + 1 := by
  rw [Danced] at h
  exact h.place_le

theorem Danced.measure_eq_iff (h : Danced events i e) :
    e.measure.toNat = i.toNat + 1 ↔ ∃ e' ∈ events, e'.measure.toNat = i.toNat + 1 := by
  rw [Danced] at h
  exact h.place_eq_iff

/-- What counts for a measure is in force there. -/
theorem Survives.danced (h : Survives events e) (hpos : e.measure ≠ 0) :
    Danced events (e.measure - 1) e := by
  obtain ⟨before, after, rfl, hafter⟩ := h
  rw [Danced, toNat_pred hpos]
  exact InForce.of_split fun e' he' heq ↦ hafter e' he' (UInt32.toNat_inj.1 heq)

/-- Some events that are listed again for their measure are left out. -/
inductive Thinned : List MoveEvent → List MoveEvent → Prop where
  | nil : Thinned [] []
  | keep {events kept : List MoveEvent} (e : MoveEvent) (h : Thinned events kept) :
    Thinned (e :: events) (e :: kept)
  | drop {events kept : List MoveEvent} (e : MoveEvent) (h : Thinned events kept)
    (hagain : ∃ e' ∈ events, e'.measure = e.measure) : Thinned (e :: events) kept

theorem Thinned.subset (h : Thinned events kept) : kept ⊆ events := by
  induction h with
  | nil => exact List.Subset.refl []
  | keep e _ ih => exact List.cons_subset_cons e ih
  | drop e _ _ ih => exact List.subset_cons_of_subset e ih

/-! ## Tracks of events -/

/-- The indices of a track are those below the greatest measure of a list of events. -/
def Track.Spans {α : Type} (t : Track α) (events : List MoveEvent) : Prop :=
  ∃ last : UInt32, (events.map (·.measure.toNat)).max? = some (last.toNat + 1) ∧
    ∀ i, (t.get? i).isSome ↔ i ≤ last

theorem spans_of_densifyMoves (h : densifyMoves level events = .ok t) : t.Spans events := by
  obtain ⟨last, hkeys, hmax⟩ := keys_of_densifyMoves h
  refine ⟨last, hmax, fun i ↦ ?_⟩
  rw [Track.get?, Option.isSome_iff_exists, ← Table.mem_keys_iff, hkeys, Track.mem_span]
  exact and_iff_right UInt32.zero_le

/-- What a track of moves has at an index is in force there. -/
theorem danced_of_densifyMoves (h : densifyMoves level events = .ok t)
    (he : t.get? i = some e) : Danced events i e := by
  obtain ⟨hpos, hdensify⟩ := densifyMoves_eq_ok_iff.1 h
  obtain ⟨k, hforce⟩ := (Track.filled_of_densify hdensify).in_force i e he
  obtain ⟨e', heq, hdanced⟩ : ∃ e', (e'.measure - 1, e') = (k, e) ∧ Danced events i e' :=
    hforce.of_map fun e' he' ↦ (toNat_pred (hpos e' he')).symm
  obtain rfl : e' = e := congrArg Prod.snd heq
  exact hdanced

/-- An index of a track of moves has what is in force there. -/
theorem get?_of_danced (h : densifyMoves level events = .ok t) (hi : (t.get? i).isSome)
    (he : Danced events i e) : t.get? i = some e := by
  obtain ⟨e', he'⟩ := Option.isSome_iff_exists.1 hi
  rw [he', (danced_of_densifyMoves h he').unique he]

/-- A track of moves is made of the events that count. -/
theorem mem_values_of_densifyMoves (h : densifyMoves level events = .ok t) :
    e ∈ t.values ↔ Survives events e := by
  rw [Track.mem_values_iff]
  constructor
  · rintro ⟨i, hi⟩
    exact (danced_of_densifyMoves h hi).survives
  · intro he
    obtain ⟨last, hmax, hspan⟩ := spans_of_densifyMoves h
    have hmem : e ∈ events := by
      obtain ⟨before, after, rfl, -⟩ := he
      simp
    have hpos := (densifyMoves_eq_ok_iff.1 h).1 e hmem
    have hle : e.measure.toNat ≤ last.toNat + 1 :=
      (List.max?_eq_some_iff.1 hmax).2 _ (List.mem_map_of_mem hmem)
    rw [← toNat_pred hpos] at hle
    refine ⟨e.measure - 1, get?_of_danced h ((hspan _).2 ?_) (he.danced hpos)⟩
    exact UInt32.le_iff_toNat_le.2 (Nat.le_of_succ_le_succ hle)

/-- Filling a table with events that are replaced makes no difference. -/
theorem Thinned.insertAll_eq (h : Thinned events kept) (hpos : ∀ e ∈ events, e.measure ≠ 0)
    (listed : Table UInt32 MoveEvent) :
    listed.insertAll (kept.map fun e ↦ (e.measure - 1, e)) =
      listed.insertAll (events.map fun e ↦ (e.measure - 1, e)) := by
  induction h generalizing listed with
  | nil => rfl
  | keep e _ ih => exact ih (List.forall_mem_cons.1 hpos).2 (listed.insert (e.measure - 1) e)
  | @drop events kept e _ hagain ih =>
    obtain ⟨e', he', heq⟩ := hagain
    have hlisted : ∃ entry ∈ events.map fun e ↦ (e.measure - 1, e), entry.1 = e.measure - 1 :=
      ⟨_, List.mem_map_of_mem he', congrArg (· - 1) heq⟩
    exact (ih (List.forall_mem_cons.1 hpos).2 listed).trans (Table.insertAll_insert e hlisted).symm

/-- Without events that are replaced the track is the same. -/
theorem Thinned.densifyMoves (h : Thinned events kept) (ht : densifyMoves level events = .ok t) :
    SongBundle.densifyMoves level kept = .ok t := by
  obtain ⟨hpos, hdensify⟩ := densifyMoves_eq_ok_iff.1 ht
  refine densifyMoves_eq_ok_iff.2 ⟨fun e he ↦ hpos e (h.subset he), ?_⟩
  rw [← hdensify]
  exact Track.densify_congr (h.insertAll_eq hpos .empty)

/-! ## What a session asks for -/

namespace Session

variable {library : Library}

/-- A session resolves a track as its library does. -/
theorem mapM_of_run_resolveTrack {t : Track MoveEvent} {v : Except BuildError (Track Move)}
    {s : Session} (h : (resolveTrack library t).run .initial = (v, s)) :
    t.mapM library.resolve = v := by
  rw [← (computes_resolveTrack library t).run_fst (faithful_initial library), h]

theorem mem_moveLoads_resolveTrack_iff (t : Track MoveEvent) (k : MoveKey) :
    k ∈ ((resolveTrack library t).run .initial).2.moveLoads ↔
      ∃ e ∈ library.reached t.values, .ofEvent e = k := by
  rw [((Import.Logs.resolveTrack t).mem_iff initial (kept_initial library)).1 k, List.mem_map]
  exact or_iff_right List.not_mem_nil

/-- A track asks for the moves of its events only. -/
theorem asked_resolveTrack (t : Track MoveEvent) :
    ∀ k ∈ ((resolveTrack library t).run .initial).2.moveLoads,
      ∃ e ∈ t.values, .ofEvent e = k := by
  intro k hk
  obtain ⟨e, he, heq⟩ := (mem_moveLoads_resolveTrack_iff t k).1 hk
  exact ⟨e, library.reached_subset t.values he, heq⟩

/-- A track that is resolved has asked exactly once for the move of each of its events. -/
theorem count_moveLoads_resolveTrack {t : Track MoveEvent} {u : Track Move} {s : Session}
    (h : (resolveTrack library t).run .initial = (.ok u, s)) {e : MoveEvent} (he : e ∈ t.values) :
    s.moveLoads.count (.ofEvent e) = 1 := by
  have hresolved : ∀ e ∈ t.values, ∃ m, library.resolve e = .ok m := by
    intro e he
    obtain ⟨i, hi⟩ := Track.mem_values_iff.1 he
    obtain ⟨m, -, hm⟩ := Track.exists_of_mapM_eq_ok (mapM_of_run_resolveTrack h) hi
    exact ⟨m, hm⟩
  have hreached : library.reached t.values = t.values :=
    Library.reached_eq fun e he ↦ by obtain ⟨m, hm⟩ := hresolved e he; rw [hm]; rfl
  have hasked : .ofEvent e ∈ ((resolveTrack library t).run .initial).2.moveLoads :=
    (mem_moveLoads_resolveTrack_iff t _).2 ⟨e, hreached.symm ▸ he, rfl⟩
  rw [h] at hasked
  have hkept : s.Kept library :=
    (Import.Logs.resolveTrack t).keeps.of_run h (kept_initial library)
  obtain ⟨m, hm⟩ := hresolved e he
  obtain ⟨description, hload, -⟩ := Outcome.bind_eq_ok_iff.1 hm
  exact Nat.le_antisymm (hkept.moves.count_le_one hload) (List.count_pos_iff.2 hasked)

end Session

/-! ## Moves that are danced -/

theorem measure_of_resolve {library : Library} {m : Move} (h : library.resolve e = .ok m) :
    m.measure = e.measure := by
  obtain ⟨description, -, hclip⟩ := Outcome.bind_eq_ok_iff.1 h
  split at hclip
  · rw [← Outcome.pure_eq_ok_iff.1 hclip]
    rfl
  · cases hclip

/-- A session that has only started resolves an event as its library does. -/
theorem Session.alone_resolve (library : Library) (e : MoveEvent) :
    alone (resolve library e) = library.resolve e :=
  (computes_resolve library e).alone_eq

/-- The moves of a level are those of the events in force. -/
structure Performed (library : Library) (events : List MoveEvent) (u : Track Move) : Prop where
  spans : u.Spans events
  moves : ∀ i m, u.get? i = some m →
    ∃ e, Danced events i e ∧ Session.alone (Session.resolve library e) = .ok m
  measure_le : ∀ i m, u.get? i = some m → m.measure.toNat ≤ i.toNat + 1
  measure_eq_iff : ∀ i m, u.get? i = some m →
    (m.measure.toNat = i.toNat + 1 ↔ ∃ e ∈ events, e.measure.toNat = i.toNat + 1)

theorem performed_of_mapM {library : Library} {u : Track Move}
    (ht : densifyMoves level events = .ok t) (hu : t.mapM library.resolve = .ok u) :
    Performed library events u := by
  have hmoves : ∀ i m, u.get? i = some m → ∃ e, Danced events i e ∧ library.resolve e = .ok m := by
    intro i m hm
    obtain ⟨e, he, hresolve⟩ := Track.get?_of_mapM_eq_ok hu hm
    exact ⟨e, danced_of_densifyMoves ht he, hresolve⟩
  obtain ⟨last, hmax, hspan⟩ := spans_of_densifyMoves ht
  refine ⟨⟨last, hmax, fun i ↦ ?_⟩, fun i m hm ↦ ?_, fun i m hm ↦ ?_, fun i m hm ↦ ?_⟩
  · rw [← hspan, Track.isSome_get?_of_mapM_eq_ok hu]
  · obtain ⟨e, hdanced, hresolve⟩ := hmoves i m hm
    exact ⟨e, hdanced, (Session.alone_resolve library e).trans hresolve⟩
  · obtain ⟨e, hdanced, hresolve⟩ := hmoves i m hm
    rw [measure_of_resolve hresolve]
    exact hdanced.measure_le
  · obtain ⟨e, hdanced, hresolve⟩ := hmoves i m hm
    rw [measure_of_resolve hresolve]
    exact hdanced.measure_eq_iff

/-- **Only the events that survive the later ones of their measures matter.**  If the events of a
level make a track, then it is resolved to the moves in force at all measures up to the greatest one,
and the library is asked exactly once for each move of an event that survives and for no other.  What
goes wrong is what goes wrong first, and events that do not survive can be left out. -/
theorem compileMoves_surviving (library : Library) (ht : densifyMoves level events = .ok t) :
    (∀ u s, (Session.resolveTrack library t).run .initial = (.ok u, s) →
      Performed library events u ∧
        ∀ e, Survives events e → s.moveLoads.count (.ofEvent e) = 1) ∧
    (∀ error s, (Session.resolveTrack library t).run .initial = (.error error, s) →
      ∃ i e, t.get? i = some e ∧ Danced events i e ∧
        Session.alone (Session.resolve library e) = .error error ∧
        ∀ j < i, ∀ e', Danced events j e' →
          ∃ m, Session.alone (Session.resolve library e') = .ok m) ∧
    (∀ k ∈ ((Session.resolveTrack library t).run .initial).2.moveLoads,
      ∃ e, Survives events e ∧ .ofEvent e = k) ∧
    ∀ kept, Thinned events kept →
      densifyMoves level kept = .ok t ∧
        (Tracks.compileMoves library level kept).run .initial =
          (Tracks.compileMoves library level events).run .initial := by
  refine ⟨fun u s h ↦ ⟨?_, fun e he ↦ ?_⟩, fun error s h ↦ ?_, fun k hk ↦ ?_, fun kept hkept ↦ ?_⟩
  · exact performed_of_mapM ht (Session.mapM_of_run_resolveTrack h)
  · exact Session.count_moveLoads_resolveTrack h ((mem_values_of_densifyMoves ht).2 he)
  · obtain ⟨i, e, he, herror, hbefore⟩ :=
      Track.exists_first_of_mapM_eq_error (Session.mapM_of_run_resolveTrack h)
    refine ⟨i, e, he, danced_of_densifyMoves ht he,
      (Session.alone_resolve library e).trans herror, fun j hj e' he' ↦ ?_⟩
    have hj' : (t.get? j).isSome := by
      obtain ⟨last, -, hspan⟩ := spans_of_densifyMoves ht
      have hi : i ≤ last := (hspan i).1 (by simp [he])
      exact (hspan j).2 (UInt32.le_trans (UInt32.le_of_lt hj) hi)
    rw [Session.alone_resolve]
    exact hbefore j hj e' (get?_of_danced ht hj' he')
  · obtain ⟨e, he, heq⟩ := Session.asked_resolveTrack t k hk
    exact ⟨e, (mem_values_of_densifyMoves ht).1 he, heq⟩
  · have hsame := hkept.densifyMoves ht
    refine ⟨hsame, ?_⟩
    rw [Tracks.compileMoves, Tracks.compileMoves, hsame, ht]

/-- A library that has all moves but `ghost`. -/
def exceptGhost : Library where
  loadMove k :=
    if k.name = "ghost" then .error (Library.noMove k.text k)
    else .ok ⟨k.name, [], k.name, k.song, 0, 0, [], .ofList [("a", ⟨"", "", 0, []⟩)]⟩
  loadSequence k := .error (Library.noMove k.text k)

/-- A level that lists its first measure twice and one of its moves under two names. -/
def listedTwice : List MoveEvent :=
  [⟨1, "a", "dc1", "gonow", "ghost"⟩, ⟨3, "a", "dc1", "gonow", "wave.move"⟩,
    ⟨1, "a", "dc1", "gonow", "clap"⟩, ⟨4, "a", "dc1", "gonow", "wave"⟩]

theorem compileMoves_surviving_listedTwice :
    ∃ t u s, densifyMoves .easy listedTwice = .ok t ∧
      (Session.resolveTrack exceptGhost t).run .initial = (.ok u, s) ∧
      Performed exceptGhost listedTwice u ∧
      s.moveLoads.count ⟨"dc1", "gonow", "wave"⟩ = 1 ∧
      ⟨"dc1", "gonow", "ghost"⟩ ∉ s.moveLoads ∧
      (Tracks.compileMoves exceptGhost .easy (listedTwice.drop 1)).run .initial =
        (Tracks.compileMoves exceptGhost .easy listedTwice).run .initial := by
  obtain ⟨u, hu⟩ := Outcome.exists_of_isOk (x := exceptGhost.moveTrack .easy listedTwice)
    (by decide)
  obtain ⟨t, ht, hresolved⟩ := Outcome.bind_eq_ok_iff.1 hu
  obtain ⟨s, hrun, -⟩ :=
    computes_resolveTrack exceptGhost t .initial (Session.faithful_initial exceptGhost)
  rw [hresolved] at hrun
  obtain ⟨hok, -, hasked, hthinned⟩ := compileMoves_surviving exceptGhost ht
  obtain ⟨hperformed, honce⟩ := hok u s hrun
  refine ⟨t, u, s, ht, hrun, hperformed, ?_, fun hghost ↦ ?_, ?_⟩
  · exact honce ⟨4, "a", "dc1", "gonow", "wave"⟩ ⟨listedTwice.take 3, [], rfl, by simp⟩
  · rw [hrun] at hasked
    obtain ⟨e, ⟨before, after, hsplit, hafter⟩, hkey⟩ := hasked _ hghost
    have hothers : ∀ e ∈ listedTwice.drop 1, MoveKey.ofEvent e ≠ ⟨"dc1", "gonow", "ghost"⟩ := by
      decide
    cases before with
    | nil =>
      obtain ⟨rfl, rfl⟩ := List.cons.inj hsplit
      exact hafter ⟨1, "a", "dc1", "gonow", "clap"⟩ (by simp) rfl
    | cons d before =>
      obtain ⟨-, hrest⟩ := List.cons.inj hsplit
      exact hothers e (by simp [listedTwice, hrest]) hkey
  · have hthin : Thinned listedTwice (listedTwice.drop 1) :=
      .drop _ (.keep _ (.keep _ (.keep _ .nil)))
        ⟨⟨1, "a", "dc1", "gonow", "clap"⟩, by simp, rfl⟩
    exact (hthinned _ hthin).2

end SongBundle
