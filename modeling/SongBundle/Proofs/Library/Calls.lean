import Mathlib.Data.List.Dedup
import SongBundle.Proofs.Build.Importing

/-!
# Calls in one session

A session is asked for descriptions, poses, moves and tracks in any order.  Whatever came before,
each call is answered as if it were the first one, and the library is asked as rarely as can be.

* `Ledger` relates what is remembered to what was asked for: a key is remembered exactly if the
  library was asked for it and answered, and no answered key is asked for again.
* `Import.Keeps` is about properties of sessions that a computation keeps; `Session.keeps_metadata`
  and `Session.keeps_sequence` say that both ways to read keep the ledgers.
* `Import.Logs` lists the keys that a computation asks for: of a track those of the moves up to the
  first that cannot be resolved (`Library.reached`).
* `Session.answers` runs a list of calls, and `Session.answers_transparent` is what can be said of
  all such runs, and of a build, whose parts share a session too.
-/

set_option autoImplicit false

namespace SongBundle

/-! ## What was asked for -/

/-- What is remembered of a library, and the keys it was asked for, the latest first. -/
structure Ledger {β : Type} (load : MoveKey → Except BuildError β) (held : Table MoveKey β)
    (asked : List MoveKey) : Prop where
  /-- Exactly the answers are remembered. -/
  get?_iff : ∀ k b, held.get? k = some b ↔ k ∈ asked ∧ load k = .ok b
  /-- A key is asked for again only after failures. -/
  again : asked.Pairwise fun later earlier ↦ later = earlier → ∃ e, load earlier = .error e

namespace Ledger

variable {β : Type} {load : MoveKey → Except BuildError β} {held : Table MoveKey β}
variable {asked : List MoveKey} {k : MoveKey} {b : β} {e : BuildError}

theorem empty : Ledger load .empty [] := ⟨fun _ _ ↦ by simp, .nil⟩

theorem refused (h : Ledger load held asked) (hload : load k = .error e) :
    Ledger load held (k :: asked) where
  get?_iff k' b' := by
    rw [h.get?_iff, List.mem_cons]
    refine ⟨fun ⟨hasked, hb⟩ ↦ ⟨.inr hasked, hb⟩, ?_⟩
    rintro ⟨rfl | hasked, hb⟩
    · rw [hload] at hb
      cases hb
    · exact ⟨hasked, hb⟩
  again := List.pairwise_cons.2 ⟨fun _ _ heq ↦ ⟨e, heq ▸ hload⟩, h.again⟩

theorem answered (h : Ledger load held asked) (hk : held.get? k = none) (hload : load k = .ok b) :
    Ledger load (held.insert k b) (k :: asked) := by
  have hnew : k ∉ asked := fun hasked ↦ by
    have hheld := (h.get?_iff k b).2 ⟨hasked, hload⟩
    rw [hk] at hheld
    cases hheld
  refine ⟨fun k' b' ↦ ?_, List.pairwise_cons.2 ⟨fun k' hk' heq ↦ ?_, h.again⟩⟩
  · rw [Table.get?_insert_eq, List.mem_cons]
    by_cases hkk : k' = k
    · subst hkk
      simp [hload]
    · rw [if_neg hkk, h.get?_iff]
      simp [hkk]
  · exact absurd (heq ▸ hk') hnew

/-- No key is asked for twice once it was answered. -/
theorem count_le_one (h : Ledger load held asked) (hload : load k = .ok b) :
    asked.count k ≤ 1 := by
  by_contra hcount
  have htwice : List.Sublist [k, k] asked :=
    List.replicate_sublist_iff.2 (Nat.lt_of_not_le hcount)
  obtain ⟨hhead, -⟩ := List.pairwise_cons.1 (h.again.sublist htwice)
  obtain ⟨e, he⟩ := hhead k (List.mem_singleton_self k) rfl
  rw [hload] at he
  cases he

/-- As many keys are remembered as different ones were answered. -/
theorem size_eq (h : Ledger load held asked) :
    held.size = (asked.filter fun k ↦ (load k).isOk).dedup.length := by
  have hsize : held.size = held.keys.length := (List.length_map _).symm
  rw [hsize]
  refine ((List.perm_ext_iff_of_nodup held.nodup_keys (List.nodup_dedup _)).2 fun k ↦ ?_).length_eq
  rw [Table.mem_keys_iff, List.mem_dedup, List.mem_filter]
  simp only [h.get?_iff, exists_and_left]
  refine and_congr_right fun _ ↦ ⟨fun ⟨b, hb⟩ ↦ by rw [hb]; rfl, Outcome.exists_of_isOk⟩

end Ledger

/-! ## Computations that keep a property -/

/-- A computation keeps a property of sessions, whether or not it succeeds. -/
def Import.Keeps {α : Type} (P : Session → Prop) (x : Import α) : Prop :=
  ∀ s : Session, P s → P (x.run s).2

section

variable {α β : Type} {P : Session → Prop}

theorem Import.Keeps.of_run {x : Import α} {v : Except BuildError α} {s s' : Session}
    (hx : Import.Keeps P x) (hrun : x.run s = (v, s')) (hs : P s) : P s' := by
  have hnext := hx s hs
  rwa [hrun] at hnext

theorem Import.keeps_pure (a : α) : Import.Keeps P (pure a) := fun _ hs ↦ hs

theorem Import.Keeps.bind {x : Import α} {f : α → Import β} (hx : Import.Keeps P x)
    (hf : ∀ a, Import.Keeps P (f a)) : Import.Keeps P (x >>= f) := by
  intro s hs
  cases hrun : x.run s with
  | mk v s' =>
    have hnext := hx.of_run hrun hs
    cases v with
    | error e =>
      rw [Import.run_bind_error hrun]
      exact hnext
    | ok a =>
      rw [Import.run_bind_ok hrun]
      exact hf a s' hnext

theorem Import.Keeps.map {x : Import α} (f : α → β) (hx : Import.Keeps P x) :
    Import.Keeps P (f <$> x) := by
  rw [map_eq_pure_bind]
  exact hx.bind fun a ↦ Import.keeps_pure (f a)

theorem Import.Keeps.mapM {f : α → Import β} {as : List α}
    (hf : ∀ a ∈ as, Import.Keeps P (f a)) : Import.Keeps P (as.mapM f) := by
  induction as with
  | nil => exact Import.keeps_pure []
  | cons a as ih =>
    rw [List.mapM_cons]
    obtain ⟨ha, has⟩ := List.forall_mem_cons.1 hf
    exact ha.bind fun b ↦ (ih has).bind fun bs ↦ Import.keeps_pure (b :: bs)

end

/-! ## Sessions -/

namespace Session

variable {library : Library}

/-- Both ledgers of a session are in order. -/
structure Kept (library : Library) (s : Session) : Prop where
  moves : Ledger library.loadMove s.moves s.moveLoads
  sequences : Ledger library.loadSequence s.sequences s.sequenceLoads

theorem kept_initial (library : Library) : initial.Kept library := ⟨.empty, .empty⟩

theorem Kept.faithful {s : Session} (h : s.Kept library) : s.Faithful library where
  moves k m hk := ((h.moves.get?_iff k m).1 hk).2
  sequences k q hk := ((h.sequences.get?_iff k q).1 hk).2

theorem keeps_metadata (k : MoveKey) : Import.Keeps (Kept library) (metadata library k) := by
  intro s hs
  rw [run_metadata]
  cases hheld : s.moves.get? k with
  | some m => exact hs
  | none =>
    cases hload : library.loadMove k with
    | ok m => exact ⟨hs.moves.answered hheld hload, hs.sequences⟩
    | error e => exact ⟨hs.moves.refused hload, hs.sequences⟩

theorem keeps_sequence (k : MoveKey) : Import.Keeps (Kept library) (sequence library k) := by
  intro s hs
  rw [run_sequence]
  cases hheld : s.sequences.get? k with
  | some q => exact hs
  | none =>
    cases hload : library.loadSequence k with
    | ok q => exact ⟨hs.moves, hs.sequences.answered hheld hload⟩
    | error e => exact ⟨hs.moves, hs.sequences.refused hload⟩

/-- The outcome of a computation that has a session to itself. -/
def alone {α : Type} (x : Import α) : Except BuildError α := (x.run initial).1

end Session

theorem Computes.run_fst {α : Type} {library : Library} {x : Import α} {v : Except BuildError α}
    (h : Computes library x v) {s : Session} (hs : s.Faithful library) : (x.run s).1 = v := by
  obtain ⟨s', hrun, -⟩ := h s hs
  rw [hrun]

theorem Computes.alone_eq {α : Type} {library : Library} {x : Import α} {v : Except BuildError α}
    (h : Computes library x v) : Session.alone x = v :=
  h.run_fst (Session.faithful_initial library)

/-! ## What is asked for -/

/-- A computation asks for the descriptions under some keys and for the poses under others, unless they
were asked for before, and for nothing else. -/
structure Import.Logs {α : Type} (library : Library) (x : Import α)
    (moves sequences : List MoveKey) : Prop where
  keeps : Import.Keeps (Session.Kept library) x
  mem_iff : ∀ s : Session, s.Kept library →
    (∀ k, k ∈ (x.run s).2.moveLoads ↔ k ∈ s.moveLoads ∨ k ∈ moves) ∧
      ∀ k, k ∈ (x.run s).2.sequenceLoads ↔ k ∈ s.sequenceLoads ∨ k ∈ sequences

/-- The events up to the first whose move cannot be resolved. -/
def Library.reached (library : Library) : List MoveEvent → List MoveEvent
  | [] => []
  | e :: events => e :: if (library.resolve e).isOk then library.reached events else []

theorem Library.reached_subset (library : Library) (events : List MoveEvent) :
    library.reached events ⊆ events := by
  induction events with
  | nil => exact List.Subset.refl _
  | cons e events ih =>
    rw [Library.reached]
    split
    · exact List.cons_subset_cons e ih
    · exact List.cons_subset_cons e (List.nil_subset events)

/-- If all moves can be resolved, all events are reached. -/
theorem Library.reached_eq {library : Library} {events : List MoveEvent}
    (h : ∀ e ∈ events, (library.resolve e).isOk) : library.reached events = events := by
  induction events with
  | nil => rfl
  | cons e events ih =>
    obtain ⟨he, hevents⟩ := List.forall_mem_cons.1 h
    rw [Library.reached, if_pos he, ih hevents]

namespace Import.Logs

variable {α β : Type} {library : Library} {moves sequences : List MoveKey}

theorem lift (v : Except BuildError α) : Logs library (liftM v) [] [] :=
  ⟨fun _ hs ↦ hs, fun _ _ ↦ ⟨fun _ ↦ (or_iff_left List.not_mem_nil).symm,
    fun _ ↦ (or_iff_left List.not_mem_nil).symm⟩⟩

/-- The rest of a computation asks for its keys only if the first part succeeds. -/
theorem bind {x : Import α} {v : Except BuildError α} {f : α → Import β}
    {moves' sequences' : List MoveKey} (hx : Logs library x moves sequences)
    (hv : Computes library x v) (hf : ∀ a, Logs library (f a) moves' sequences') :
    Logs library (x >>= f) (moves ++ if v.isOk then moves' else [])
      (sequences ++ if v.isOk then sequences' else []) := by
  refine ⟨hx.keeps.bind fun a ↦ (hf a).keeps, fun s hs ↦ ?_⟩
  obtain ⟨s', hrun, -⟩ := hv s hs.faithful
  obtain ⟨hmoves, hsequences⟩ := hx.mem_iff s hs
  rw [hrun] at hmoves hsequences
  cases v with
  | error e =>
    have hok : (Except.error e : Except BuildError α).isOk = false := rfl
    rw [Import.run_bind_error hrun]
    simp [hok, hmoves, hsequences]
  | ok a =>
    have hok : (Except.ok a : Except BuildError α).isOk = true := rfl
    obtain ⟨hmoves', hsequences'⟩ := (hf a).mem_iff s' (hx.keeps.of_run hrun hs)
    rw [Import.run_bind_ok hrun]
    simp [hok, hmoves, hsequences, hmoves', hsequences', or_assoc]

/-- A rest that asks for nothing adds nothing. -/
theorem bind_nil {x : Import α} {v : Except BuildError α} {f : α → Import β}
    (hx : Logs library x moves sequences) (hv : Computes library x v)
    (hf : ∀ a, Logs library (f a) [] []) : Logs library (x >>= f) moves sequences := by
  simpa using hx.bind hv hf

theorem map {x : Import α} {v : Except BuildError α} (f : α → β)
    (hx : Logs library x moves sequences) (hv : Computes library x v) :
    Logs library (f <$> x) moves sequences := by
  rw [map_eq_pure_bind]
  exact hx.bind_nil hv fun a ↦ lift (.ok (f a))

theorem metadata (k : MoveKey) : Logs library (Session.metadata library k) [k] [] := by
  refine ⟨Session.keeps_metadata k, fun s hs ↦ ?_⟩
  rw [Session.run_metadata]
  cases hheld : s.moves.get? k with
  | some m =>
    have hasked := ((hs.moves.get?_iff k m).1 hheld).1
    refine ⟨fun k' ↦ ?_, fun _ ↦ by simp⟩
    rw [List.mem_singleton, or_iff_left_of_imp fun heq ↦ heq ▸ hasked]
  | none => cases library.loadMove k <;> simp [or_comm]

theorem sequence (k : MoveKey) : Logs library (Session.sequence library k) [] [k] := by
  refine ⟨Session.keeps_sequence k, fun s hs ↦ ?_⟩
  rw [Session.run_sequence]
  cases hheld : s.sequences.get? k with
  | some q =>
    have hasked := ((hs.sequences.get?_iff k q).1 hheld).1
    refine ⟨fun _ ↦ by simp, fun k' ↦ ?_⟩
    rw [List.mem_singleton, or_iff_left_of_imp fun heq ↦ heq ▸ hasked]
  | none => cases library.loadSequence k <;> simp [or_comm]

theorem resolve (e : MoveEvent) : Logs library (Session.resolve library e) [.ofEvent e] [] := by
  refine (metadata _).bind_nil (computes_metadata _) fun m ↦ ?_
  cases m.clips.get? e.clip with
  | none => exact lift (.error (Session.noClip e))
  | some c => exact lift (.ok _)

theorem resolveAll (events : List MoveEvent) :
    Logs library (events.mapM (Session.resolve library))
      ((library.reached events).map .ofEvent) [] := by
  induction events with
  | nil => exact lift (.ok [])
  | cons e events ih =>
    have hrest (m : Move) : Logs library
        (do return m :: (← events.mapM (Session.resolve library)))
        ((library.reached events).map .ofEvent) [] :=
      ih.bind_nil (.mapM (computes_resolve library) events) fun _ ↦ lift (.ok _)
    rw [List.mapM_cons]
    have hlogs := (resolve e).bind (computes_resolve library e) hrest
    cases hok : (library.resolve e).isOk <;> simpa [Library.reached, hok] using hlogs

theorem resolveTrack (t : Track MoveEvent) :
    Logs library (Session.resolveTrack library t)
      ((library.reached t.values).map .ofEvent) [] := by
  have hvalues := Computes.mapM (computes_resolve library) t.values
  exact ((resolveAll t.values).map _ hvalues).map _ (hvalues.map _)

end Import.Logs

/-! ## Calls -/

/-- What a session can be asked for. -/
inductive Call where
  | metadata (k : MoveKey)
  | sequence (k : MoveKey)
  | resolve (e : MoveEvent)
  | resolveTrack (t : Track MoveEvent)

/-- What a session gives. -/
inductive Answer where
  | metadata (m : MoveMetadata)
  | sequence (q : Pose.Sequence)
  | move (m : Move)
  | track (t : Track Move)

/-- Asks a session. -/
def Call.ask (library : Library) : Call → Import Answer
  | .metadata k => .metadata <$> Session.metadata library k
  | .sequence k => .sequence <$> Session.sequence library k
  | .resolve e => .move <$> Session.resolve library e
  | .resolveTrack t => .track <$> Session.resolveTrack library t

/-- The keys of the descriptions that a call needs. -/
def Call.moveKeys (library : Library) : Call → List MoveKey
  | .metadata k => [k]
  | .sequence _ => []
  | .resolve e => [.ofEvent e]
  | .resolveTrack t => (library.reached t.values).map .ofEvent

/-- The keys of the poses that a call needs. -/
def Call.sequenceKeys : Call → List MoveKey
  | .sequence k => [k]
  | _ => []

namespace Session

/-- The answers to calls, one after the other, and the session after them. -/
def answers (library : Library) : Session → List Call → List (Except BuildError Answer) × Session
  | s, [] => ([], s)
  | s, c :: calls =>
    let (answer, s) := (c.ask library).run s
    let (rest, s) := answers library s calls
    (answer :: rest, s)

variable {library : Library}

theorem exists_computes_ask (c : Call) : ∃ v, Computes library (c.ask library) v := by
  cases c with
  | metadata k => exact ⟨_, (computes_metadata k).map _⟩
  | sequence k => exact ⟨_, (computes_sequence k).map _⟩
  | resolve e => exact ⟨_, (computes_resolve library e).map _⟩
  | resolveTrack t => exact ⟨_, (computes_resolveTrack library t).map _⟩

/-- A call asks for the keys that it needs. -/
theorem logs_ask (c : Call) :
    Import.Logs library (c.ask library) (c.moveKeys library) c.sequenceKeys := by
  cases c with
  | metadata k => exact (Import.Logs.metadata k).map _ (computes_metadata k)
  | sequence k => exact (Import.Logs.sequence k).map _ (computes_sequence k)
  | resolve e => exact (Import.Logs.resolve e).map _ (computes_resolve library e)
  | resolveTrack t => exact (Import.Logs.resolveTrack t).map _ (computes_resolveTrack library t)

/-- A call is answered as if it were the first one. -/
theorem run_ask_fst {s : Session} (hs : s.Kept library) (c : Call) :
    ((c.ask library).run s).1 = alone (c.ask library) := by
  obtain ⟨v, hv⟩ : ∃ v, Computes library (c.ask library) v := exists_computes_ask c
  rw [hv.run_fst hs.faithful, hv.alone_eq]

theorem exists_answers_eq {s : Session} (hs : s.Kept library) (calls : List Call) :
    ∃ s', answers library s calls = (calls.map fun c ↦ alone (c.ask library), s') ∧
      s'.Kept library ∧
      (∀ k, k ∈ s'.moveLoads ↔ k ∈ s.moveLoads ∨ ∃ c ∈ calls, k ∈ c.moveKeys library) ∧
      ∀ k, k ∈ s'.sequenceLoads ↔ k ∈ s.sequenceLoads ∨ ∃ c ∈ calls, k ∈ c.sequenceKeys := by
  induction calls generalizing s with
  | nil => exact ⟨s, rfl, hs, by simp, by simp⟩
  | cons c calls ih =>
    have hlogs : Import.Logs library (c.ask library) _ _ := logs_ask c
    have hanswer := run_ask_fst hs c
    have hnext := hlogs.keeps s hs
    obtain ⟨hmoves, hsequences⟩ := hlogs.mem_iff s hs
    cases hrun : (c.ask library).run s with
    | mk answer next =>
      rw [hrun] at hanswer hnext hmoves hsequences
      obtain ⟨s', hrest, hs', hmoves', hsequences'⟩ := ih hnext
      refine ⟨s', ?_, hs', fun k ↦ ?_, fun k ↦ ?_⟩
      · rw [answers, hrun]
        dsimp only
        rw [hrest, List.map_cons, ← hanswer]
      · simp [hmoves', hmoves, or_assoc]
      · simp [hsequences', hsequences, or_assoc]

/-! ## What sessions cost and give -/

/-- A session that asked its library for what calls need, and as rarely as can be. -/
structure Frugal (library : Library) (calls : List Call) (s : Session) : Prop where
  /-- The descriptions asked for are those that some call needs. -/
  mem_moveLoads_iff : ∀ k, k ∈ s.moveLoads ↔ ∃ c ∈ calls, k ∈ c.moveKeys library
  /-- The poses asked for are those that some call needs. -/
  mem_sequenceLoads_iff : ∀ k, k ∈ s.sequenceLoads ↔ ∃ c ∈ calls, k ∈ c.sequenceKeys
  /-- A description is asked for again only after failures. -/
  moves_again : s.moveLoads.Pairwise fun later earlier ↦
    later = earlier → ∃ e, library.loadMove earlier = .error e
  /-- Poses are asked for again only after failures. -/
  sequences_again : s.sequenceLoads.Pairwise fun later earlier ↦
    later = earlier → ∃ e, library.loadSequence earlier = .error e
  /-- A description is given at most once. -/
  moves_once : ∀ k m, library.loadMove k = .ok m → s.moveLoads.count k ≤ 1
  /-- Poses are given at most once. -/
  sequences_once : ∀ k q, library.loadSequence k = .ok q → s.sequenceLoads.count k ≤ 1
  /-- The moves read are those whose description was given. -/
  importedMoves_eq : s.importedMoves =
    (s.moveLoads.filter fun k ↦ (library.loadMove k).isOk).dedup.length

end Session

/-- Compiles a request in such a way that every level of its moves and of its practice has a session
to itself. -/
def CompiledSong.compileApart (library : Library) (c : BuildConfig) (r : BuildRequest) :
    Except BuildError CompiledSong := do
  let moves ← r.moves.mapEntriesM fun level events ↦
    Session.alone (Tracks.compileMoves library level events)
  let cameras ← r.cameras.mapEntriesM densifyCameras
  let expressions ← densifyExpressions r.visemes
  let tracks : Tracks := ⟨moves, cameras, expressions⟩
  let graph ← BuildError.checked (MoveGraph.build tracks.moves.toList r.beginnerMoves)
  let battle ← (Battle.compile r.battle r.totalMeasures).mapError Battle.Fault.report
  let partyJumps ←
    (PartyJump.compile r.partyJumps r.totalMeasures).mapError PartyJump.Fault.report
  let levels ← r.practice.mapEntriesM fun level sections ↦
    Session.alone (PracticeLevel.compile library c.timing.beatsPerMeasure level sections)
  let timing ←
    (Timing.Score.compile r.tempoChanges r.songEvents r.drums c.timing.beatsPerMeasure).mapError
      Timing.Fault.report
  return ⟨graph, battle, partyJumps, levels.map fun _ p ↦ p.plan, levels.map fun _ p ↦ p.sequences,
    tracks.anims, timing, manifestOf r tracks.levels⟩

theorem CompiledSong.compile_eq_compileApart {library : Library} {c : BuildConfig}
    {r : BuildRequest} : compile library c r = compileApart library c r := by
  have hmoves : (fun level events ↦ Session.alone (Tracks.compileMoves library level events)) =
      library.moveTrack := funext₂ fun _ _ ↦ (computes_moveTrack _ _).alone_eq
  have hpractice : (fun level sections ↦ Session.alone
      (PracticeLevel.compile library c.timing.beatsPerMeasure level sections)) =
      library.practiceLevel c.timing.beatsPerMeasure :=
    funext₂ fun _ _ ↦ (computes_practiceLevel _ _ _).alone_eq
  rw [compile_eq_compileSong, Library.compileSong, compileApart, Library.tracks, hmoves, hpractice]
  simp only [bind_assoc, pure_bind]

/-- **A session only remembers.**  However many calls share it, each one is answered as on a session
of its own.  The library is asked for the keys that the calls need, and for a key again only as long
as it fails.  So the parts of a build that share a session come to the same as if they did not. -/
theorem Session.answers_transparent (library : Library) (calls : List Call) :
    (∃ s, answers library initial calls = (calls.map fun c ↦ alone (c.ask library), s) ∧
      s.Frugal library calls) ∧
    ∀ c r, CompiledSong.compile library c r = CompiledSong.compileApart library c r := by
  refine ⟨?_, fun _ _ ↦ CompiledSong.compile_eq_compileApart⟩
  obtain ⟨s, hanswers, hs, hmoves, hsequences⟩ := exists_answers_eq (kept_initial library) calls
  refine ⟨s, hanswers, ?_⟩
  exact {
    mem_moveLoads_iff := fun k ↦ (hmoves k).trans (or_iff_right List.not_mem_nil)
    mem_sequenceLoads_iff := fun k ↦ (hsequences k).trans (or_iff_right List.not_mem_nil)
    moves_again := hs.moves.again
    sequences_again := hs.sequences.again
    moves_once := fun _ _ ↦ hs.moves.count_le_one
    sequences_once := fun _ _ ↦ hs.sequences.count_le_one
    importedMoves_eq := hs.moves.size_eq }

end SongBundle
