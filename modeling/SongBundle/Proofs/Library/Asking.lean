import SongBundle.Proofs.Build.Importing

/-!
# Songs depend on what they ask for

A session lists the keys that its library was asked for.  A computation that reads through a session
cannot tell two libraries apart that say the same of those keys: `Import.Asking` relates the
computation on one library to the one on the other, and `Import.Asking.bind` carries this to whatever
is put together from single readings.  `CompiledSong.compile_congr` says it of whole songs.
-/

set_option autoImplicit false

namespace SongBundle

/-- One session has asked for all that another one has. -/
structure Session.Covers (s' s : Session) : Prop where
  moveLoads : s.moveLoads ⊆ s'.moveLoads
  sequenceLoads : s.sequenceLoads ⊆ s'.sequenceLoads

theorem Session.Covers.refl (s : Session) : s.Covers s :=
  ⟨List.Subset.refl _, List.Subset.refl _⟩

theorem Session.Covers.trans {s s' s'' : Session} (h' : s''.Covers s') (h : s'.Covers s) :
    s''.Covers s :=
  ⟨List.Subset.trans h.moveLoads h'.moveLoads,
    List.Subset.trans h.sequenceLoads h'.sequenceLoads⟩

/-- Two libraries say the same of all that a session has asked for. -/
structure Session.Agreed (library library' : Library) (s : Session) : Prop where
  moves : ∀ k ∈ s.moveLoads, library'.loadMove k = library.loadMove k
  sequences : ∀ k ∈ s.sequenceLoads, library'.loadSequence k = library.loadSequence k

theorem Session.Covers.agreed {library library' : Library} {s s' : Session} (h : s'.Covers s)
    (hs' : s'.Agreed library library') : s.Agreed library library' :=
  ⟨fun k hk ↦ hs'.moves k (h.moveLoads hk), fun k hk ↦ hs'.sequences k (h.sequenceLoads hk)⟩

/-- A computation on one library adds to what was asked for, and on another library that says the
same of it the computation runs alike. -/
def Import.Asking {α : Type} (library library' : Library) (x x' : Import α) : Prop :=
  ∀ s : Session, (x.run s).2.Covers s ∧
    ((x.run s).2.Agreed library library' → x'.run s = x.run s)

namespace Import.Asking

variable {α β κ : Type} {library library' : Library}

/-! ## Computations put together -/

/-- What is computed without reading asks for nothing. -/
theorem lift (v : Except BuildError α) : Asking library library' (liftM v) (liftM v) :=
  fun s ↦ ⟨.refl s, fun _ ↦ rfl⟩

theorem pure (a : α) : Asking library library' (Pure.pure a) (Pure.pure a) := lift (.ok a)

theorem throw (e : BuildError) :
    Asking library library' (MonadExcept.throw e : Import α) (MonadExcept.throw e) :=
  lift (.error e)

theorem bind {x x' : Import α} {f f' : α → Import β} (hx : Asking library library' x x')
    (hf : ∀ a, Asking library library' (f a) (f' a)) :
    Asking library library' (x >>= f) (x' >>= f') := by
  intro s
  have hfirst := hx s
  rcases hrun : x.run s with ⟨e | a, s'⟩
  · rw [hrun] at hfirst
    rw [Import.run_bind_error hrun]
    exact ⟨hfirst.1, fun hagreed ↦ Import.run_bind_error (hfirst.2 hagreed)⟩
  · rw [hrun] at hfirst
    rw [Import.run_bind_ok hrun]
    -- the rest covers what the first part asked for, so that agreement reaches back to it
    obtain ⟨hrest, hagrees⟩ := hf a s'
    refine ⟨hrest.trans hfirst.1, fun hagreed ↦ ?_⟩
    exact (Import.run_bind_ok (hfirst.2 (hrest.agreed hagreed))).trans (hagrees hagreed)

theorem map {x x' : Import α} (f : α → β) (hx : Asking library library' x x') :
    Asking library library' (f <$> x) (f <$> x') := by
  rw [map_eq_pure_bind, map_eq_pure_bind]
  exact hx.bind fun a ↦ pure (f a)

theorem mapM {f f' : α → Import β} (hf : ∀ a, Asking library library' (f a) (f' a))
    (as : List α) : Asking library library' (as.mapM f) (as.mapM f') := by
  induction as with
  | nil => exact pure []
  | cons a as ih =>
    rw [List.mapM_cons, List.mapM_cons]
    exact (hf a).bind fun b ↦ ih.bind fun bs ↦ pure (b :: bs)

theorem mapEntriesM [Ord κ] {f f' : κ → α → Import β}
    (hf : ∀ k a, Asking library library' (f k a) (f' k a)) (t : Table κ α) :
    Asking library library' (t.mapEntriesM f) (t.mapEntriesM f') :=
  (mapM (fun e ↦ hf e.1 e.2) t.toList).map _

/-! ## Reading -/

theorem metadata (k : MoveKey) :
    Asking library library' (Session.metadata library k) (Session.metadata library' k) := by
  intro s
  rw [Session.run_metadata, Session.run_metadata]
  cases s.moves.get? k with
  | some m => exact ⟨.refl s, fun _ ↦ rfl⟩
  | none =>
    dsimp only
    cases hload : library.loadMove k with
    | ok m =>
      refine ⟨⟨List.subset_cons_self _ _, List.Subset.refl _⟩, fun hagreed ↦ ?_⟩
      rw [hagreed.moves k List.mem_cons_self, hload]
    | error e =>
      refine ⟨⟨List.subset_cons_self _ _, List.Subset.refl _⟩, fun hagreed ↦ ?_⟩
      rw [hagreed.moves k List.mem_cons_self, hload]

theorem sequence (k : MoveKey) :
    Asking library library' (Session.sequence library k) (Session.sequence library' k) := by
  intro s
  rw [Session.run_sequence, Session.run_sequence]
  cases s.sequences.get? k with
  | some q => exact ⟨.refl s, fun _ ↦ rfl⟩
  | none =>
    dsimp only
    cases hload : library.loadSequence k with
    | ok q =>
      refine ⟨⟨List.Subset.refl _, List.subset_cons_self _ _⟩, fun hagreed ↦ ?_⟩
      rw [hagreed.sequences k List.mem_cons_self, hload]
    | error e =>
      refine ⟨⟨List.Subset.refl _, List.subset_cons_self _ _⟩, fun hagreed ↦ ?_⟩
      rw [hagreed.sequences k List.mem_cons_self, hload]

theorem resolve (e : MoveEvent) :
    Asking library library' (Session.resolve library e) (Session.resolve library' e) := by
  refine (metadata (.ofEvent e)).bind fun m ↦ ?_
  cases m.clips.get? e.clip with
  | none => exact throw _
  | some c => exact pure _

theorem resolveTrack (t : Track MoveEvent) :
    Asking library library' (Session.resolveTrack library t) (Session.resolveTrack library' t) :=
  ((mapM resolve t.entries.values).map _).map _

/-! ## Songs -/

theorem tracks (r : BuildRequest) :
    Asking library library' (Tracks.compile library r) (Tracks.compile library' r) := by
  refine (mapEntriesM (fun level events ↦ ?_) r.moves).bind fun moves ↦ ?_
  · exact (lift (densifyMoves level events)).bind resolveTrack
  refine (mapEntriesM (fun level events ↦ lift (densifyCameras level events)) r.cameras).bind
    fun cameras ↦ ?_
  exact (lift (densifyExpressions r.visemes)).bind fun expressions ↦ pure _

theorem stepSequence (beatsPerMeasure : UInt32) (songs : Table String Practice.SongRef)
    (l : Practice.Lesson) (s : Practice.Step) :
    Asking library library' (Practice.stepSequence library beatsPerMeasure songs l s)
      (Practice.stepSequence library' beatsPerMeasure songs l s) := by
  rw [Practice.stepSequence, Practice.stepSequence]
  cases s.kind with
  | review => exact pure _
  | learn =>
    dsimp only
    cases songs.get? s.first with
    | none => exact pure _
    | some song =>
      dsimp only
      cases Practice.startBeat? beatsPerMeasure s.measure with
      | none => exact throw _
      | some beat => exact (sequence _).bind fun q ↦ pure _

theorem sectionSequences (beatsPerMeasure : UInt32) (songs : Table String Practice.SongRef)
    (l : Practice.Lesson) (steps : List Practice.Step) :
    Asking library library' (Practice.sectionSequences library beatsPerMeasure songs l steps)
      (Practice.sectionSequences library' beatsPerMeasure songs l steps) := by
  induction steps generalizing l with
  | nil => exact pure _
  | cons s steps ih =>
    exact (stepSequence beatsPerMeasure songs l s).bind fun r ↦
      (ih r.2).bind fun rest ↦ pure _

theorem practiceLevel (beatsPerMeasure : UInt32) (level : Difficulty)
    (sections : List (List MoveEvent)) :
    Asking library library' (PracticeLevel.compile library beatsPerMeasure level sections)
      (PracticeLevel.compile library' beatsPerMeasure level sections) := by
  refine (lift _).bind fun plan ↦ Asking.bind ?_ fun sequences ↦ pure _
  exact (mapM (fun s ↦ sectionSequences _ _ _ s.steps) plan.sections).bind fun _ ↦ pure _

theorem importing (c : BuildConfig) (r : BuildRequest) :
    Asking library library' (CompiledSong.importing library c r)
      (CompiledSong.importing library' c r) := by
  refine (tracks r).bind fun tracks ↦ (lift _).bind fun graph ↦ ?_
  refine (lift _).bind fun battle ↦ (lift _).bind fun jumps ↦ ?_
  refine (mapEntriesM (practiceLevel _) r.practice).bind fun levels ↦ ?_
  exact (lift _).bind fun timing ↦ pure _

end Import.Asking

/-- The session of compiling a request, with what it asked for. -/
def CompiledSong.session (library : Library) (c : BuildConfig) (r : BuildRequest) : Session :=
  ((importing library c r).run .initial).2

/-- **A song depends on the library through what it asks for.**  Another library that says the same
of these keys gives the same song, or the same error. -/
theorem CompiledSong.compile_congr {library library' : Library} {c : BuildConfig}
    {r : BuildRequest} (h : (session library c r).Agreed library library') :
    compile library' c r = compile library c r := by
  rw [compile, compile, (Import.Asking.importing c r .initial).2 h]

end SongBundle
