import SongBundle.Practice.Sequences
import SongBundle.Proofs.Library.Session

/-!
# Pose sequences without a session

`Library.sequences` gives every step of a plan its poses by asking the library each time, and
`computes_sequences` says that a session comes to the same.  What is shown is then read off step by
step:

* `Shown` holds of the steps that have a sequence: reviews, and lessons whose move the plan can
  place in a song.
* `Taught` relates a learning step to its sequence: the poses that the library holds under
  `stepKey`, placed at the beat where the step starts.
* `sequences_eq_ok` says that every shown step gets one sequence, in the order of the steps.
-/

set_option autoImplicit false

namespace SongBundle

open Practice

namespace Library

variable (library : Library) (beatsPerMeasure : UInt32) (songs : Table String SongRef)

/-- The sequence of a learning step; none if the plan cannot place its move in a song. -/
def learn (s : Step) : Except BuildError (Option Pose.Sequence) :=
  match songs.get? s.first with
  | none => .ok none
  | some song =>
    match startBeat? beatsPerMeasure s.measure with
    | none => .error (tooLate s)
    | some beat => do return some (learnSequence s beat (← library.loadSequence (stepKey s song)))

/-- What a section has taught when a learning step was given a sequence or none. -/
def after (l : Lesson) : Option Pose.Sequence → Lesson
  | some q => ⟨l.pending ++ q.frames, some q.header⟩
  | none => l

/-- The sequence of a step, if it has one, and the lesson after it. -/
def stepSequence (l : Lesson) (s : Step) : Except BuildError (Option Pose.Sequence × Lesson) :=
  match s.kind with
  | .review => .ok (some (reviewSequence s l), { l with pending := [] })
  | .learn => do
    let q ← library.learn beatsPerMeasure songs s
    return (q, after l q)

/-- The sequences of the steps of a section. -/
def sectionSequences : Lesson → List Step → Except BuildError (List Pose.Sequence)
  | _, [] => .ok []
  | l, s :: steps => do
    let (q, l) ← library.stepSequence beatsPerMeasure songs l s
    let rest ← sectionSequences l steps
    return q.toList ++ rest

/-- The sequences of a plan, in the order of its steps. -/
def sequences (p : Plan) : Except BuildError (List Pose.Sequence) := do
  let perSection ← p.sections.mapM fun s ↦
    library.sectionSequences beatsPerMeasure p.songs .initial s.steps
  return perSection.flatten

end Library

variable {library : Library} {beatsPerMeasure : UInt32} {songs : Table String SongRef}

/-! ## In a session -/

theorem computes_stepSequence (l : Lesson) (s : Step) :
    Computes library (Practice.stepSequence library beatsPerMeasure songs l s)
      (library.stepSequence beatsPerMeasure songs l s) := by
  rw [Practice.stepSequence, Library.stepSequence]
  cases s.kind with
  | review => exact computes_pure _
  | learn =>
    rw [Library.learn]
    cases songs.get? s.first with
    | none => exact computes_pure _
    | some song =>
      dsimp only
      cases startBeat? beatsPerMeasure s.measure with
      | none => exact computes_throw _
      | some beat =>
        dsimp only
        rw [bind_assoc]
        exact (computes_sequence _).bind fun q ↦ computes_pure _

theorem computes_sectionSequences (l : Lesson) (steps : List Step) :
    Computes library (Practice.sectionSequences library beatsPerMeasure songs l steps)
      (library.sectionSequences beatsPerMeasure songs l steps) := by
  induction steps generalizing l with
  | nil => exact computes_pure _
  | cons s steps ih =>
    exact (computes_stepSequence l s).bind fun r ↦ (ih r.2).bind fun rest ↦ computes_pure _

theorem computes_sequences (p : Plan) :
    Computes library (Practice.sequences library beatsPerMeasure p)
      (library.sequences beatsPerMeasure p) :=
  (Computes.mapM (fun s ↦ computes_sectionSequences _ s.steps) p.sections).bind fun _ ↦
    computes_pure _

/-! ## What is shown -/

/-- A step that has a sequence. -/
def Shown (songs : Table String SongRef) (s : Step) : Prop :=
  s.kind = .review ∨ s.first ∈ songs.keys

instance (songs : Table String SongRef) : DecidablePred (Shown songs) := fun s ↦
  inferInstanceAs (Decidable (s.kind = .review ∨ s.first ∈ songs.keys))

/-- The sequence of a learning step shows what the library holds of its first move. -/
def Taught (library : Library) (beatsPerMeasure : UInt32) (songs : Table String SongRef) (s : Step)
    (q : Pose.Sequence) : Prop :=
  ∃ song beat source, songs.get? s.first = some song ∧
    startBeat? beatsPerMeasure s.measure = some beat ∧
    library.loadSequence (stepKey s song) = .ok source ∧ q = learnSequence s beat source

theorem learn_eq_none {s : Step} (h : library.learn beatsPerMeasure songs s = .ok none) :
    s.first ∉ songs.keys := by
  rw [Library.learn] at h
  rw [Table.mem_keys_iff]
  rintro ⟨song, hsong⟩
  rw [hsong] at h
  dsimp only at h
  split at h
  · cases h
  · rw [Outcome.bind_eq_ok_iff] at h
    obtain ⟨q, -, h⟩ := h
    cases h

theorem learn_eq_some {s : Step} {q : Pose.Sequence}
    (h : library.learn beatsPerMeasure songs s = .ok (some q)) :
    s.first ∈ songs.keys ∧ Taught library beatsPerMeasure songs s q := by
  rw [Library.learn] at h
  split at h
  · cases h
  · rename_i song hsong
    split at h
    · cases h
    · rename_i beat hbeat
      rw [Outcome.bind_eq_ok_iff] at h
      obtain ⟨source, hsource, h⟩ := h
      have hq : learnSequence s beat source = q := Option.some.inj (Except.ok.inj h)
      exact ⟨Table.mem_keys_iff.2 ⟨song, hsong⟩,
        song, beat, source, hsong, hbeat, hsource, hq.symm⟩

/-- A step has a sequence exactly if it is shown, and a learning step then shows its move. -/
theorem stepSequence_eq_ok {l l' : Lesson} {s : Step} {q : Option Pose.Sequence}
    (h : library.stepSequence beatsPerMeasure songs l s = .ok (q, l')) :
    (q.isSome ↔ Shown songs s) ∧
      ∀ q' ∈ q, s.kind = .learn → Taught library beatsPerMeasure songs s q' := by
  rw [Library.stepSequence] at h
  cases hkind : s.kind with
  | review =>
    rw [hkind] at h
    obtain rfl : some (reviewSequence s l) = q := congrArg Prod.fst (Except.ok.inj h)
    exact ⟨iff_of_true rfl (.inl hkind), fun _ _ hlearn ↦ (nomatch hlearn)⟩
  | learn =>
    rw [hkind, Outcome.bind_eq_ok_iff] at h
    obtain ⟨q', hq', h⟩ := h
    obtain rfl : q' = q := congrArg Prod.fst (Except.ok.inj h)
    have hshown : Shown songs s ↔ s.first ∈ songs.keys := by simp [Shown, hkind]
    rw [hshown]
    cases q' with
    | none => exact ⟨iff_of_false Bool.false_ne_true (learn_eq_none hq'), fun _ h ↦ (nomatch h)⟩
    | some q =>
      obtain ⟨hmem, htaught⟩ := learn_eq_some hq'
      refine ⟨iff_of_true rfl hmem, fun _ h _ ↦ ?_⟩
      exact Option.some.inj h ▸ htaught

theorem sectionSequences_eq_ok {l : Lesson} {steps : List Step} {qs : List Pose.Sequence}
    (h : library.sectionSequences beatsPerMeasure songs l steps = .ok qs) :
    List.Forall₂ (fun s q ↦ s.kind = .learn → Taught library beatsPerMeasure songs s q)
      (steps.filter (Shown songs ·)) qs := by
  induction steps generalizing l qs with
  | nil =>
    obtain rfl : [] = qs := Except.ok.inj h
    exact .nil
  | cons s steps ih =>
    rw [Library.sectionSequences, Outcome.bind_eq_ok_iff] at h
    obtain ⟨⟨q, l'⟩, hq, h⟩ := h
    rw [Outcome.bind_eq_ok_iff] at h
    obtain ⟨rest, hrest, h⟩ := h
    obtain rfl : q.toList ++ rest = qs := Except.ok.inj h
    obtain ⟨hshown, htaught⟩ := stepSequence_eq_ok hq
    cases q with
    | none =>
      rw [List.filter_cons_of_neg (by simpa using hshown)]
      exact ih hrest
    | some q =>
      rw [List.filter_cons_of_pos (by simpa using hshown)]
      exact .cons (htaught q rfl) (ih hrest)

/-- **Every shown step of a plan gets one sequence, in the order of the steps, and a learning step
shows what the library holds of its first move.** -/
theorem sequences_eq_ok {p : Plan} {qs : List Pose.Sequence}
    (h : library.sequences beatsPerMeasure p = .ok qs) :
    List.Forall₂ (fun s q ↦ s.kind = .learn → Taught library beatsPerMeasure p.songs s q)
      (p.steps.filter (Shown p.songs ·)) qs := by
  rw [Library.sequences, Outcome.bind_eq_ok_iff] at h
  obtain ⟨perSection, hsections, h⟩ := h
  rw [Outcome.mapM_eq_ok_iff] at hsections
  rw [Outcome.pure_eq_ok_iff] at h
  subst h
  rw [Plan.steps]
  generalize p.sections = sections at hsections
  induction hsections with
  | nil => exact .nil
  | cons hs _ ih =>
    rw [List.flatMap_cons, List.filter_append, List.flatten_cons]
    exact List.rel_append (sectionSequences_eq_ok hs) ih

end SongBundle
