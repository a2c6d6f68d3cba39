import Mathlib.Data.List.DropRight
import SongBundle.Proofs.Practice.Reviews

/-!
# The sequences of any plan

A plan that was read from a file mixes lessons and reviews as it likes, and its moves need not be in
any song.  Three things then last for different times: what waits for a review goes with the next
one, the header stays until a section ends, and neither reaches the next section.

* `Faulty` says what keeps a learning step from being shown, and `stepSequence_eq_error_iff` that
  no step fails for anything else.
* `Fulfils` says what a step shows after what its section has shown already.  `taughtBy` is what a
  section remembers of that; `fulfils_of_stepSequence` is one step, and `exists_emitted` is a run
  of steps.
* `sequences_expand` puts the sections of a plan together.
-/

set_option autoImplicit false

namespace SongBundle

open Practice

variable {library : Library} {beatsPerMeasure : UInt32} {songs : Table String SongRef}

/-! ## Faults -/

/-- A learning step with a song cannot be shown: it starts too late, or else the library has no
poses for it. -/
inductive Faulty (library : Library) (beatsPerMeasure : UInt32) (songs : Table String SongRef)
    (s : Step) : BuildError → Prop
  | late {song : SongRef} (learn : s.kind = .learn) (song_eq : songs.get? s.first = some song)
      (late : UInt32.size ≤ (s.measure.toNat - 1) * beatsPerMeasure.toNat) :
      Faulty library beatsPerMeasure songs s (tooLate s)
  | missing {song : SongRef} {e : BuildError} (learn : s.kind = .learn)
      (song_eq : songs.get? s.first = some song)
      (early : (s.measure.toNat - 1) * beatsPerMeasure.toNat < UInt32.size)
      (missing : library.loadSequence (stepKey s song) = .error e) :
      Faulty library beatsPerMeasure songs s e

/-- The first step with a fault has this one. -/
def FirstFault (library : Library) (beatsPerMeasure : UInt32) (songs : Table String SongRef)
    (steps : List Step) (e : BuildError) : Prop :=
  ∃ before s after, steps = before ++ s :: after ∧ Faulty library beatsPerMeasure songs s e ∧
    ∀ s' ∈ before, ∀ e', ¬Faulty library beatsPerMeasure songs s' e'

theorem learn_eq_error_iff {s : Step} {e : BuildError} (hkind : s.kind = .learn) :
    library.learn beatsPerMeasure songs s = .error e ↔
      Faulty library beatsPerMeasure songs s e := by
  rw [Library.learn]
  cases hsong : songs.get? s.first with
  | none =>
    refine ⟨fun h ↦ ?_, ?_⟩
    · cases h
    · rintro (⟨-, hsome, -⟩ | ⟨-, hsome, -⟩) <;> simp [hsong] at hsome
  | some song =>
    dsimp only
    rw [startBeat?]
    by_cases hearly : (s.measure.toNat - 1) * beatsPerMeasure.toNat < UInt32.size
    · rw [if_pos hearly]
      dsimp only
      rw [Outcome.bind_pure_eq_error_iff]
      constructor
      · exact fun hmissing ↦ .missing hkind hsong hearly hmissing
      · rintro (⟨-, -, hlate⟩ | ⟨-, hsome, -, hmissing⟩)
        · exact absurd hlate hearly.not_ge
        · obtain rfl := Option.some.inj (hsong.symm.trans hsome)
          exact hmissing
    · rw [if_neg hearly]
      constructor
      · intro h
        obtain rfl := Except.error.inj h
        exact .late hkind hsong (Nat.le_of_not_lt hearly)
      · rintro (_ | ⟨-, -, hearly', -⟩)
        · rfl
        · exact absurd hearly' hearly

/-- A step fails exactly with its fault, whatever its section has taught. -/
theorem stepSequence_eq_error_iff {l : Lesson} {s : Step} {e : BuildError} :
    library.stepSequence beatsPerMeasure songs l s = .error e ↔
      Faulty library beatsPerMeasure songs s e := by
  rw [Library.stepSequence]
  cases hkind : s.kind with
  | review =>
    refine ⟨fun h ↦ ?_, ?_⟩
    · cases h
    · rintro (⟨hlearn, -, -⟩ | ⟨hlearn, -, -, -⟩) <;> simp [hkind] at hlearn
  | learn =>
    dsimp only
    rw [Outcome.bind_pure_eq_error_iff]
    exact learn_eq_error_iff hkind

/-- A step that is shown or left out has no fault. -/
theorem not_faulty_of_stepSequence {l : Lesson} {s : Step} {r : Option Pose.Sequence × Lesson}
    (h : library.stepSequence beatsPerMeasure songs l s = .ok r) (e : BuildError) :
    ¬Faulty library beatsPerMeasure songs s e := by
  intro hfault
  have herror : library.stepSequence beatsPerMeasure songs l s = .error e :=
    stepSequence_eq_error_iff.2 hfault
  rw [h] at herror
  cases herror

/-! ## What a section has shown -/

/-- Whether what was shown is a lesson. -/
def isLesson (e : Step × Pose.Sequence) : Bool := e.1.kind = .learn

/-- The lessons since the last review of a section. -/
def sinceReview (shown : List (Step × Pose.Sequence)) : List (Step × Pose.Sequence) :=
  shown.rtakeWhile isLesson

/-- The last lesson of a section. -/
def lastLesson? (shown : List (Step × Pose.Sequence)) : Option (Step × Pose.Sequence) :=
  (shown.filter isLesson).getLast?

/-- A step shows what it has to, after what its section has shown: a lesson its move, and a review
all lessons since the review before it, under the header of the last lesson of all. -/
structure Fulfils (library : Library) (beatsPerMeasure : UInt32) (songs : Table String SongRef)
    (shown : List (Step × Pose.Sequence)) (s : Step) (q : Pose.Sequence) : Prop where
  learn : s.kind = .learn → Taught library beatsPerMeasure songs s q
  name_eq : s.kind = .review → q.name = "review_" ++ s.first ++ "_" ++ s.next
  frames_eq : s.kind = .review → q.frames = (sinceReview shown).flatMap (·.2.frames)
  header_eq : s.kind = .review → q.header = ((lastLesson? shown).map (·.2.header)).getD .default

/-- The sequences of the steps of a section: one for each step that is shown, in order. -/
structure Expands (library : Library) (beatsPerMeasure : UInt32) (songs : Table String SongRef)
    (steps : List Step) (emitted : List (Step × Pose.Sequence)) : Prop where
  steps_eq : emitted.map Prod.fst = steps.filter (Shown songs ·)
  fulfils : ∀ shown s q rest, emitted = shown ++ (s, q) :: rest →
    Fulfils library beatsPerMeasure songs shown s q

/-- The state of a section that has shown something. -/
def taughtBy (shown : List (Step × Pose.Sequence)) : Lesson where
  pending := (sinceReview shown).flatMap (·.2.frames)
  header := (lastLesson? shown).map (·.2.header)

theorem taughtBy_learn (shown : List (Step × Pose.Sequence)) {s : Step} (q : Pose.Sequence)
    (hkind : s.kind = .learn) :
    taughtBy (shown ++ [(s, q)]) = Library.after (taughtBy shown) (some q) := by
  have hlesson : isLesson (s, q) = true := decide_eq_true hkind
  have hpending : sinceReview (shown ++ [(s, q)]) = sinceReview shown ++ [(s, q)] :=
    List.rtakeWhile_concat_pos _ _ _ hlesson
  have hheader : lastLesson? (shown ++ [(s, q)]) = some (s, q) := by
    rw [lastLesson?, List.filter_append, List.filter_cons_of_pos hlesson]
    exact List.getLast?_concat
  rw [taughtBy, hpending, hheader, List.flatMap_append, List.flatMap_singleton]
  rfl

theorem taughtBy_review (shown : List (Step × Pose.Sequence)) {s : Step} (q : Pose.Sequence)
    (hkind : s.kind = .review) :
    taughtBy (shown ++ [(s, q)]) = { taughtBy shown with pending := [] } := by
  have hlesson : ¬isLesson (s, q) = true := by simp [isLesson, hkind]
  have hpending : sinceReview (shown ++ [(s, q)]) = [] :=
    List.rtakeWhile_concat_neg _ _ _ hlesson
  have hheader : lastLesson? (shown ++ [(s, q)]) = lastLesson? shown := by
    rw [lastLesson?, List.filter_append, List.filter_cons_of_neg hlesson, List.filter_nil,
      List.append_nil, ← lastLesson?]
  rw [taughtBy, hpending, hheader]
  rfl

/-- A step shows what it has to, if anything, and leaves the section as that amounts to. -/
theorem fulfils_of_stepSequence {shown : List (Step × Pose.Sequence)} {s : Step}
    {q : Option Pose.Sequence} {l : Lesson}
    (h : library.stepSequence beatsPerMeasure songs (taughtBy shown) s = .ok (q, l)) :
    (q.isSome = true ↔ Shown songs s) ∧ l = taughtBy (shown ++ q.toList.map (s, ·)) ∧
      ∀ q' ∈ q, Fulfils library beatsPerMeasure songs shown s q' := by
  obtain ⟨hshown, htaught⟩ := stepSequence_eq_ok h
  refine ⟨hshown, ?_⟩
  rw [Library.stepSequence] at h
  cases hkind : s.kind with
  | review =>
    rw [hkind] at h
    obtain ⟨rfl, rfl⟩ := Prod.mk.inj (Except.ok.inj h)
    refine ⟨(taughtBy_review shown _ hkind).symm, fun q' hq' ↦ ?_⟩
    obtain rfl := Option.some.inj hq'
    exact ⟨fun hlearn ↦ htaught _ rfl hlearn, fun _ ↦ rfl, fun _ ↦ rfl, fun _ ↦ rfl⟩
  | learn =>
    rw [hkind, Outcome.bind_eq_ok_iff] at h
    obtain ⟨q', -, h⟩ := h
    obtain ⟨rfl, rfl⟩ := Prod.mk.inj (Except.ok.inj h)
    have hreview : ¬s.kind = .review := by simp [hkind]
    constructor
    · cases q' with
      | none => exact congrArg taughtBy (List.append_nil shown).symm
      | some q => exact (taughtBy_learn shown q hkind).symm
    · intro q hq
      exact ⟨htaught q hq, fun h ↦ absurd h hreview, fun h ↦ absurd h hreview,
        fun h ↦ absurd h hreview⟩

/-- The sequences of the steps of a section after some that it has shown. -/
theorem exists_emitted {shown : List (Step × Pose.Sequence)} {steps : List Step}
    {qs : List Pose.Sequence}
    (h : library.sectionSequences beatsPerMeasure songs (taughtBy shown) steps = .ok qs) :
    ∃ emitted : List (Step × Pose.Sequence), emitted.map Prod.snd = qs ∧
      emitted.map Prod.fst = steps.filter (Shown songs ·) ∧
      ∀ before s q after, emitted = before ++ (s, q) :: after →
        Fulfils library beatsPerMeasure songs (shown ++ before) s q := by
  induction steps generalizing shown qs with
  | nil =>
    obtain rfl : [] = qs := Except.ok.inj h
    exact ⟨[], rfl, rfl, fun before s q after h ↦ by simp at h⟩
  | cons s steps ih =>
    rw [Library.sectionSequences, Outcome.bind_eq_ok_iff] at h
    obtain ⟨⟨q, l⟩, hstep, h⟩ := h
    rw [Outcome.bind_eq_ok_iff] at h
    obtain ⟨rest, hrest, h⟩ := h
    obtain rfl : q.toList ++ rest = qs := Except.ok.inj h
    obtain ⟨hshown, rfl, hfulfils⟩ := fulfils_of_stepSequence hstep
    obtain ⟨emitted, rfl, hsteps, hemitted⟩ := ih hrest
    cases q with
    | none =>
      rw [Option.toList_none, List.map_nil, List.append_nil] at hemitted
      refine ⟨emitted, rfl, ?_, hemitted⟩
      rw [List.filter_cons_of_neg (by simpa using hshown), hsteps]
    | some q =>
      refine ⟨(s, q) :: emitted, rfl, ?_, fun before s' q' after hsplit ↦ ?_⟩
      · rw [List.filter_cons_of_pos (by simpa using hshown), List.map_cons, hsteps]
      · cases before with
        | nil =>
          obtain ⟨heq, -⟩ := List.cons.inj hsplit
          obtain ⟨rfl, rfl⟩ := Prod.mk.inj heq
          rw [List.append_nil]
          exact hfulfils q rfl
        | cons first before =>
          obtain ⟨rfl, htail⟩ := List.cons.inj hsplit
          have hlater := hemitted before s' q' after htail
          rwa [Option.toList_some, List.map_singleton, List.append_assoc] at hlater

/-! ## Sections -/

theorem Expands.of_sectionSequences {steps : List Step} {qs : List Pose.Sequence}
    (h : library.sectionSequences beatsPerMeasure songs .initial steps = .ok qs) :
    ∃ emitted, Expands library beatsPerMeasure songs steps emitted ∧ qs = emitted.map Prod.snd := by
  have hinitial : library.sectionSequences beatsPerMeasure songs (taughtBy []) steps = .ok qs := h
  obtain ⟨emitted, hqs, hsteps, hfulfils⟩ := exists_emitted hinitial
  exact ⟨emitted, ⟨hsteps, hfulfils⟩, hqs.symm⟩

/-- A section fails with its first fault. -/
theorem firstFault_of_sectionSequences {l : Lesson} {steps : List Step} {e : BuildError}
    (h : library.sectionSequences beatsPerMeasure songs l steps = .error e) :
    FirstFault library beatsPerMeasure songs steps e := by
  induction steps generalizing l with
  | nil => cases h
  | cons s steps ih =>
    rw [Library.sectionSequences] at h
    rcases Outcome.bind_eq_error_iff.1 h with hstep | ⟨⟨q, l'⟩, hstep, h⟩
    · exact ⟨[], s, steps, rfl, stepSequence_eq_error_iff.1 hstep, by simp⟩
    · rw [Outcome.bind_pure_eq_error_iff] at h
      obtain ⟨before, s', after, rfl, hfault, hbefore⟩ := ih h
      exact ⟨s :: before, s', after, rfl, hfault,
        List.forall_mem_cons.2 ⟨not_faulty_of_stepSequence hstep, hbefore⟩⟩

/-- A section that is shown has no fault. -/
theorem not_faulty_of_sectionSequences {l : Lesson} {steps : List Step} {qs : List Pose.Sequence}
    (h : library.sectionSequences beatsPerMeasure songs l steps = .ok qs) :
    ∀ s ∈ steps, ∀ e, ¬Faulty library beatsPerMeasure songs s e := by
  induction steps generalizing l qs with
  | nil => simp
  | cons s steps ih =>
    rw [Library.sectionSequences, Outcome.bind_eq_ok_iff] at h
    obtain ⟨⟨q, l'⟩, hstep, h⟩ := h
    rw [Outcome.bind_eq_ok_iff] at h
    obtain ⟨rest, hrest, -⟩ := h
    exact List.forall_mem_cons.2 ⟨not_faulty_of_stepSequence hstep, ih hrest⟩

/-! ## Plans -/

/-- A plan fails with its first fault. -/
theorem firstFault_of_sequences {p : Plan} {e : BuildError}
    (h : library.sequences beatsPerMeasure p = .error e) :
    FirstFault library beatsPerMeasure p.songs p.steps e := by
  rw [Library.sequences, Outcome.bind_pure_eq_error_iff] at h
  obtain ⟨earlier, part, later, hsections, hpart, hearlier⟩ :=
    Outcome.exists_first_of_mapM_eq_error h
  obtain ⟨before, s, after, hsteps, hfault, hbefore⟩ := firstFault_of_sectionSequences hpart
  refine ⟨earlier.flatMap Section.steps ++ before, s, after ++ later.flatMap Section.steps, ?_,
    hfault, fun s' hs' ↦ ?_⟩
  · rw [Plan.steps, hsections, List.flatMap_append, List.flatMap_cons, hsteps]
    simp
  · rcases List.mem_append.1 hs' with hs' | hs'
    · obtain ⟨part', hpart', hs'⟩ := List.mem_flatMap.1 hs'
      obtain ⟨qs, hqs⟩ := hearlier part' hpart'
      exact not_faulty_of_sectionSequences hqs s' hs'
    · exact hbefore s' hs'

/-- A plan that is shown has no fault, and its sections show what they have to. -/
theorem expands_of_sequences {p : Plan} {qs : List Pose.Sequence}
    (h : library.sequences beatsPerMeasure p = .ok qs) :
    (∀ s ∈ p.steps, ∀ e, ¬Faulty library beatsPerMeasure p.songs s e) ∧
    ∃ perSection : List (List (Step × Pose.Sequence)),
      qs = perSection.flatten.map Prod.snd ∧
      List.Forall₂ (fun part emitted ↦ Expands library beatsPerMeasure p.songs part.steps emitted)
        p.sections perSection := by
  rw [Library.sequences, Outcome.bind_eq_ok_iff] at h
  obtain ⟨qss, hsections, h⟩ := h
  obtain rfl := Outcome.pure_eq_ok_iff.1 h
  rw [Outcome.mapM_eq_ok_iff] at hsections
  constructor
  · intro s hs
    obtain ⟨part, hpart, hs⟩ := List.mem_flatMap.1 hs
    have hparts := forall_mem_of_forall₂
      (hsections.flip.imp fun _ _ hpart ↦ not_faulty_of_sectionSequences hpart)
    exact hparts part hpart s hs
  · obtain ⟨perSection, hexpands, hqss⟩ := exists_forall₂_of_forall₂
      (hsections.imp fun _ _ hpart ↦ Expands.of_sectionSequences hpart)
    rw [← List.forall₂_map_right_iff, List.forall₂_eq_eq_eq] at hqss
    refine ⟨perSection, ?_, hexpands⟩
    rw [hqss, List.map_flatten]

/-- **A plan shows its steps in order, and fails only with its first fault.**  It fails exactly if
one of its learning steps has a fault.  Otherwise there is one sequence for each review and for each
learning step with a song, and a review repeats the lessons since the one before it. -/
theorem sequences_expand (p : Plan) {t : Session} (ht : t.Faithful library) :
    ((∃ e, ((Practice.sequences library beatsPerMeasure p).run t).1 = .error e) ↔
      ∃ s ∈ p.steps, ∃ e, Faulty library beatsPerMeasure p.songs s e) ∧
    (∀ e, ((Practice.sequences library beatsPerMeasure p).run t).1 = .error e →
      FirstFault library beatsPerMeasure p.songs p.steps e) ∧
    ∀ qs, ((Practice.sequences library beatsPerMeasure p).run t).1 = .ok qs →
      ∃ perSection : List (List (Step × Pose.Sequence)),
        qs = perSection.flatten.map Prod.snd ∧
        List.Forall₂ (fun part emitted ↦ Expands library beatsPerMeasure p.songs part.steps emitted)
          p.sections perSection := by
  obtain ⟨t', hrun, -⟩ := computes_sequences p t ht
  rw [show ((Practice.sequences library beatsPerMeasure p).run t).1 =
    library.sequences beatsPerMeasure p from congrArg Prod.fst hrun]
  refine ⟨⟨?_, ?_⟩, fun e h ↦ firstFault_of_sequences h, fun qs h ↦ (expands_of_sequences h).2⟩
  · rintro ⟨e, h⟩
    obtain ⟨before, s, after, hsteps, hfault, -⟩ := firstFault_of_sequences h
    exact ⟨s, hsteps ▸ List.mem_append_right _ (List.mem_cons_self ..), e, hfault⟩
  · rintro ⟨s, hs, e, hfault⟩
    cases h : library.sequences beatsPerMeasure p with
    | error e' => exact ⟨e', rfl⟩
    | ok qs => exact absurd hfault ((expands_of_sequences h).1 s hs e)

/-- A section with three reviews, the first of them before any lesson, and one with a lesson after
its only review.  The plan does not know the song of `spin`. -/
def mixedPlan : Plan where
  sections := [
    ⟨0, [⟨.review, "wave", "clap", false, 1⟩, ⟨.learn, "wave", "clap", false, 0⟩,
      ⟨.learn, "spin", "clap", false, 2⟩, ⟨.learn, "clap", "wave", false, 3⟩,
      ⟨.review, "wave", "wave", false, 1⟩, ⟨.review, "clap", "wave", false, 3⟩]⟩,
    ⟨1, [⟨.review, "wave", "clap", false, 1⟩, ⟨.learn, "wave", "clap", true, 4⟩]⟩]
  songs := .ofList [("clap", ⟨"dc1", "gonow"⟩), ("wave", ⟨"dc1", "gonow"⟩)]

/-- A plan whose second lesson is the first one to start too late for four beats a measure. -/
def latePlan : Plan where
  sections := [⟨0, [⟨.learn, "wave", "clap", false, 1073741824⟩,
    ⟨.learn, "clap", "wave", false, 1073741825⟩, ⟨.learn, "wave", "clap", false, 1073741826⟩]⟩]
  songs := .ofList [("clap", ⟨"dc1", "gonow"⟩), ("wave", ⟨"dc1", "gonow"⟩)]

theorem sequences_expand_mixed :
    (∃ qs, ((Practice.sequences twoPoses 4 mixedPlan).run .initial).1 = .ok qs ∧
      qs.map (·.frames.length) = [0, 2, 2, 4, 0, 0, 2] ∧
      qs.map (·.header.skeleton) = ["default", "wave_gonow", "clap_gonow", "clap_gonow",
        "clap_gonow", "default", "wave_gonow"] ∧
      ∃ perSection : List (List (Step × Pose.Sequence)),
        qs = perSection.flatten.map Prod.snd ∧
        List.Forall₂ (fun part emitted ↦ Expands twoPoses 4 mixedPlan.songs part.steps emitted)
          mixedPlan.sections perSection) ∧
    FirstFault twoPoses 4 latePlan.songs latePlan.steps
      (tooLate ⟨.learn, "clap", "wave", false, 1073741825⟩) := by
  have hinitial := Session.faithful_initial twoPoses
  constructor
  · obtain ⟨-, -, hexpands⟩ := @sequences_expand twoPoses 4 mixedPlan _ hinitial
    exact ⟨_, rfl, rfl, by decide +kernel, hexpands _ rfl⟩
  · obtain ⟨-, hfault, -⟩ := @sequences_expand twoPoses 4 latePlan _ hinitial
    exact hfault _ rfl

end SongBundle
