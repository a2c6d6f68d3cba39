import SongBundle.Library.Session
import SongBundle.Proofs.Table

/-!
# Sessions only remember

A session never holds anything but what its library answers, so a computation that reads through a
session comes to the same as one that asks the library every time.

* `Session.Faithful` is the invariant: what a session holds, the library answers.
* `Computes` relates a computation in a session to its outcome.  It holds of the two ways to read,
  and `Computes.bind`, `Computes.mapM` and `Computes.mapEntriesM` carry it to whatever is put
  together from them.
* `Library.resolve` resolves a move without a session; `computes_resolveTrack` says that a session
  resolves whole tracks in the same way.
-/

set_option autoImplicit false

namespace SongBundle

/-- All that a session holds is what the library answers. -/
structure Session.Faithful (library : Library) (s : Session) : Prop where
  moves : ∀ k m, s.moves.get? k = some m → library.loadMove k = .ok m
  sequences : ∀ k q, s.sequences.get? k = some q → library.loadSequence k = .ok q

theorem Session.faithful_initial (library : Library) : Session.initial.Faithful library :=
  ⟨fun _ _ h ↦ (nomatch h), fun _ _ h ↦ (nomatch h)⟩

/-- Whatever a session remembers, a computation comes to the outcome `v`. -/
def Computes {α : Type} (library : Library) (x : Import α) (v : Except BuildError α) : Prop :=
  ∀ s : Session, s.Faithful library → ∃ s', x.run s = (v, s') ∧ s'.Faithful library

section

variable {α β κ : Type} {library : Library}

/-! ## Computations put together -/

theorem Import.run_bind_ok {x : Import α} {f : α → Import β} {s s' : Session} {a : α}
    (h : x.run s = (.ok a, s')) : (x >>= f).run s = (f a).run s' := by
  change StateT.run (ExceptT.run (x >>= f)) s = _
  rw [ExceptT.run_bind, StateT.run_bind, show StateT.run (ExceptT.run x) s = _ from h]
  rfl

theorem Import.run_bind_error {x : Import α} {f : α → Import β} {s s' : Session} {e : BuildError}
    (h : x.run s = (.error e, s')) : (x >>= f).run s = (.error e, s') := by
  change StateT.run (ExceptT.run (x >>= f)) s = _
  rw [ExceptT.run_bind, StateT.run_bind, show StateT.run (ExceptT.run x) s = _ from h]
  rfl

/-- What is computed without reading is computed in every session. -/
theorem computes_lift (v : Except BuildError α) : Computes library (liftM v : Import α) v :=
  fun s hs ↦ ⟨s, rfl, hs⟩

theorem computes_pure (a : α) : Computes library (pure a) (.ok a) := fun s hs ↦ ⟨s, rfl, hs⟩

theorem computes_throw (e : BuildError) : Computes library (throw e : Import α) (.error e) :=
  fun s hs ↦ ⟨s, rfl, hs⟩

theorem Computes.bind {x : Import α} {v : Except BuildError α} {f : α → Import β}
    {w : α → Except BuildError β} (hx : Computes library x v)
    (hf : ∀ a, Computes library (f a) (w a)) : Computes library (x >>= f) (v >>= w) := by
  intro s hs
  obtain ⟨s₁, hrun, hs₁⟩ := hx s hs
  cases v with
  | error e => exact ⟨s₁, Import.run_bind_error hrun, hs₁⟩
  | ok a =>
    obtain ⟨s₂, hrun₂, hs₂⟩ := hf a s₁ hs₁
    exact ⟨s₂, (Import.run_bind_ok hrun).trans hrun₂, hs₂⟩

theorem Computes.map {x : Import α} {v : Except BuildError α} (f : α → β)
    (hx : Computes library x v) : Computes library (f <$> x) (f <$> v) := by
  rw [map_eq_pure_bind, map_eq_pure_bind]
  exact hx.bind fun a ↦ computes_pure (f a)

theorem Computes.mapM {f : α → Import β} {w : α → Except BuildError β}
    (hf : ∀ a, Computes library (f a) (w a)) (as : List α) :
    Computes library (as.mapM f) (as.mapM w) := by
  induction as with
  | nil => exact computes_pure []
  | cons a as ih =>
    rw [List.mapM_cons, List.mapM_cons]
    exact (hf a).bind fun b ↦ ih.bind fun bs ↦ computes_pure (b :: bs)

theorem Computes.mapEntriesM [Ord κ] {f : κ → α → Import β} {w : κ → α → Except BuildError β}
    (hf : ∀ k a, Computes library (f k a) (w k a)) (t : Table κ α) :
    Computes library (t.mapEntriesM f) (t.mapEntriesM w) :=
  (Computes.mapM (fun e ↦ hf e.1 e.2) t.toList).map _

theorem Computes.mapTrack {f : α → Import β} {w : α → Except BuildError β}
    (hf : ∀ a, Computes library (f a) (w a)) (t : Track α) :
    Computes library (t.mapM f) (t.mapM w) :=
  ((Computes.mapM hf t.entries.values).map _).map _

/-! ## Reading -/

/-- What a faithful session holds after the library answered is still what it answers. -/
theorem Session.Faithful.insert_move {s : Session} (hs : s.Faithful library) {k : MoveKey}
    {m : MoveMetadata} (loads : List MoveKey) (h : library.loadMove k = .ok m) :
    Session.Faithful library { s with moveLoads := loads, moves := s.moves.insert k m } where
  moves k' m' hk' := by
    rw [Table.get?_insert_eq] at hk'
    split at hk'
    · rename_i hk
      rw [hk, h, Option.some.inj hk']
    · exact hs.moves k' m' hk'
  sequences := hs.sequences

theorem Session.Faithful.insert_sequence {s : Session} (hs : s.Faithful library) {k : MoveKey}
    {q : Pose.Sequence} (loads : List MoveKey) (h : library.loadSequence k = .ok q) :
    Session.Faithful library
      { s with sequenceLoads := loads, sequences := s.sequences.insert k q } where
  moves := hs.moves
  sequences k' q' hk' := by
    rw [Table.get?_insert_eq] at hk'
    split at hk'
    · rename_i hk
      rw [hk, h, Option.some.inj hk']
    · exact hs.sequences k' q' hk'

/-- A description is remembered, or else it is asked for and remembered from then on. -/
theorem Session.run_metadata (s : Session) (k : MoveKey) :
    (metadata library k).run s =
      match s.moves.get? k with
      | some m => (.ok m, s)
      | none =>
        match library.loadMove k with
        | .ok m => (.ok m, { s with moveLoads := k :: s.moveLoads, moves := s.moves.insert k m })
        | .error e => (.error e, { s with moveLoads := k :: s.moveLoads }) := by
  have hread : (metadata library k).run s =
      (match s.moves.get? k with
      | some m => pure m
      | none => do
        set { s with moveLoads := k :: s.moveLoads }
        match library.loadMove k with
        | .ok m =>
          set { s with moveLoads := k :: s.moveLoads, moves := s.moves.insert k m }
          return m
        | .error e => throw e : Import MoveMetadata).run s := rfl
  rw [hread]
  cases s.moves.get? k with
  | some m => rfl
  | none => cases library.loadMove k <;> rfl

/-- Poses are remembered, or else they are asked for and remembered from then on. -/
theorem Session.run_sequence (s : Session) (k : MoveKey) :
    (sequence library k).run s =
      match s.sequences.get? k with
      | some q => (.ok q, s)
      | none =>
        match library.loadSequence k with
        | .ok q =>
          (.ok q,
            { s with sequenceLoads := k :: s.sequenceLoads, sequences := s.sequences.insert k q })
        | .error e => (.error e, { s with sequenceLoads := k :: s.sequenceLoads }) := by
  have hread : (sequence library k).run s =
      (match s.sequences.get? k with
      | some q => pure q
      | none => do
        set { s with sequenceLoads := k :: s.sequenceLoads }
        match library.loadSequence k with
        | .ok q =>
          set { s with sequenceLoads := k :: s.sequenceLoads, sequences := s.sequences.insert k q }
          return q
        | .error e => throw e : Import Pose.Sequence).run s := rfl
  rw [hread]
  cases s.sequences.get? k with
  | some q => rfl
  | none => cases library.loadSequence k <;> rfl

theorem computes_metadata (k : MoveKey) :
    Computes library (Session.metadata library k) (library.loadMove k) := by
  intro s hs
  rw [Session.run_metadata]
  cases hm : s.moves.get? k with
  | some m =>
    rw [hs.moves k m hm]
    exact ⟨s, rfl, hs⟩
  | none =>
    cases hload : library.loadMove k with
    | ok m => exact ⟨_, rfl, hs.insert_move _ hload⟩
    | error e => exact ⟨_, rfl, hs.moves, hs.sequences⟩

theorem computes_sequence (k : MoveKey) :
    Computes library (Session.sequence library k) (library.loadSequence k) := by
  intro s hs
  rw [Session.run_sequence]
  cases hq : s.sequences.get? k with
  | some q =>
    rw [hs.sequences k q hq]
    exact ⟨s, rfl, hs⟩
  | none =>
    cases hload : library.loadSequence k with
    | ok q => exact ⟨_, rfl, hs.insert_sequence _ hload⟩
    | error e => exact ⟨_, rfl, hs.moves, hs.sequences⟩

end

/-- The move placed by an event, as the library describes it. -/
def Library.resolve (library : Library) (e : MoveEvent) : Except BuildError Move := do
  let m ← library.loadMove (.ofEvent e)
  match m.clips.get? e.clip with
  | some c => return .of e m c
  | none => throw (Session.noClip e)

theorem computes_resolve (library : Library) (e : MoveEvent) :
    Computes library (Session.resolve library e) (library.resolve e) := by
  refine (computes_metadata _).bind fun m ↦ ?_
  cases m.clips.get? e.clip with
  | none => exact computes_throw _
  | some c => exact computes_pure _

theorem computes_resolveTrack (library : Library) (t : Track MoveEvent) :
    Computes library (Session.resolveTrack library t) (t.mapM library.resolve) :=
  .mapTrack (computes_resolve library) t

end SongBundle
