import SongBundle.Proofs.Practice.Namesakes

/-!
# What a review repeats

Within a section the frames of all lessons wait for the review at its end.  A compiled plan has one
review in each section that teaches anything, and it comes last, so that it repeats the section:
all frames of its lessons, in order, under the header of the last lesson.

* `sectionSequences_learn_cons` is one lesson and `sectionSequences_learn_append` a run of lessons;
  `foldl_after` is what waits for a review after them.
* `Rehearsed` relates the steps of a section to its sequences, and `sequences_rehearsed` follows the
  sequences of a plan through all its sections.
-/

set_option autoImplicit false

namespace SongBundle

open Practice

namespace Practice

/-- Lessons that there are any of have a review. -/
theorem exists_reviewStep?_eq_some {steps : List Step} (h : steps ≠ []) :
    ∃ review, reviewStep? steps = some review ∧ review.kind = .review := by
  obtain ⟨first, hfirst⟩ : ∃ first, steps.head? = some first :=
    ⟨_, List.head?_eq_some_head h⟩
  obtain ⟨last, hlast⟩ : ∃ last, steps.getLast? = some last :=
    ⟨_, List.getLast?_eq_some_getLast h⟩
  exact ⟨_, by rw [reviewStep?, hfirst, hlast], rfl⟩

end Practice

variable {library : Library} {beatsPerMeasure : UInt32} {songs : Table String SongRef}

/-! ## Lessons in a row -/

/-- What waits for a review after some lessons. -/
theorem foldl_after (l : Lesson) (copies : List Pose.Sequence) :
    copies.foldl (fun l q ↦ Library.after l (some q)) l =
      ⟨l.pending ++ copies.flatMap Pose.Sequence.frames,
        (copies.getLast?.map Pose.Sequence.header).or l.header⟩ := by
  induction copies generalizing l with
  | nil => simp
  | cons q copies ih =>
    rw [List.foldl_cons, ih, Library.after, List.flatMap_cons, List.append_assoc,
      List.getLast?_cons]
    cases copies.getLast? <;> rfl

/-- One lesson shows its move and leaves its frames for the review. -/
theorem sectionSequences_learn_cons {l : Lesson} {s : Step} {steps : List Step}
    {qs : List Pose.Sequence} (hkind : s.kind = .learn) (hsong : s.first ∈ songs.keys)
    (h : library.sectionSequences beatsPerMeasure songs l (s :: steps) = .ok qs) :
    ∃ q rest, Taught library beatsPerMeasure songs s q ∧ qs = q :: rest ∧
      library.sectionSequences beatsPerMeasure songs (Library.after l (some q)) steps =
        .ok rest := by
  rw [Library.sectionSequences, Outcome.bind_eq_ok_iff] at h
  obtain ⟨⟨q, l'⟩, hstep, h⟩ := h
  rw [Outcome.bind_eq_ok_iff] at h
  obtain ⟨rest, hrest, h⟩ := h
  obtain rfl : q.toList ++ rest = qs := Except.ok.inj h
  rw [Library.stepSequence, hkind, Outcome.bind_eq_ok_iff] at hstep
  obtain ⟨q', hlearn, hstep⟩ := hstep
  obtain ⟨rfl, rfl⟩ := Prod.mk.inj (Except.ok.inj hstep)
  cases q' with
  | none => exact absurd hsong (learn_eq_none hlearn)
  | some q => exact ⟨q, rest, (learn_eq_some hlearn).2, rfl, hrest⟩

/-- A run of lessons shows its moves in order and leaves all frames for the review. -/
theorem sectionSequences_learn_append {l : Lesson} {steps rest : List Step}
    {qs : List Pose.Sequence} (hkind : ∀ s ∈ steps, s.kind = .learn)
    (hsong : ∀ s ∈ steps, s.first ∈ songs.keys)
    (h : library.sectionSequences beatsPerMeasure songs l (steps ++ rest) = .ok qs) :
    ∃ copies qs', List.Forall₂ (Taught library beatsPerMeasure songs) steps copies ∧
      qs = copies ++ qs' ∧
      library.sectionSequences beatsPerMeasure songs
        (copies.foldl (fun l q ↦ Library.after l (some q)) l) rest = .ok qs' := by
  induction steps generalizing l qs with
  | nil => exact ⟨[], qs, .nil, rfl, h⟩
  | cons s steps ih =>
    obtain ⟨hs, hkind⟩ := List.forall_mem_cons.1 hkind
    obtain ⟨hsong', hsong⟩ := List.forall_mem_cons.1 hsong
    obtain ⟨q, qs, htaught, rfl, hsteps⟩ := sectionSequences_learn_cons hs hsong' h
    obtain ⟨copies, qs', hcopies, hqs, hrest⟩ := ih hkind hsong hsteps
    exact ⟨q :: copies, qs', .cons htaught hcopies, congrArg (q :: ·) hqs, hrest⟩

theorem sectionSequences_review {l : Lesson} {review : Step} (h : review.kind = .review) :
    library.sectionSequences beatsPerMeasure songs l [review] = .ok [reviewSequence review l] := by
  rw [Library.sectionSequences, Library.stepSequence, h]
  rfl

/-! ## Sections -/

/-- The sequence of a lesson is the one that the library holds of its move, with the header and the
frames as they are there; only the offset of every frame is the beat of the song where the lesson
starts. -/
def Copied (library : Library) (beatsPerMeasure : UInt32) (songs : Table String SongRef) (s : Step)
    (q : Pose.Sequence) : Prop :=
  ∃ song source, songs.get? s.first = some song ∧
    library.loadSequence (stepKey s song) = .ok source ∧ q.header = source.header ∧
    ∃ beat : UInt32, beat.toNat = (s.measure.toNat - 1) * beatsPerMeasure.toNat ∧
      q.frames = source.frames.map fun f ↦ ⟨f.beat, beat.toFloat32, f.pose⟩

theorem startBeat?_eq_some {measure beat : UInt32}
    (h : startBeat? beatsPerMeasure measure = some beat) :
    beat.toNat = (measure.toNat - 1) * beatsPerMeasure.toNat := by
  rw [startBeat?] at h
  split at h
  · rename_i hlt
    rw [← Option.some.inj h, UInt32.toNat_ofNat_of_lt' hlt]
  · cases h

theorem Taught.copied {s : Step} {q : Pose.Sequence}
    (h : Taught library beatsPerMeasure songs s q) : Copied library beatsPerMeasure songs s q := by
  obtain ⟨song, beat, source, hsong, hbeat, hsource, rfl⟩ := h
  exact ⟨song, source, hsong, hsource, rfl, beat, startBeat?_eq_some hbeat, rfl⟩

/-- The sequences of a section: a copy for each lesson, and after them a review that has the frames
of all copies and the header of the last one. -/
inductive Rehearsed (library : Library) (beatsPerMeasure : UInt32)
    (songs : Table String SongRef) : List Step → List Pose.Sequence → Prop
  | nothing : Rehearsed library beatsPerMeasure songs [] []
  | lessons {steps : List Step} {review : Step} {copies : List Pose.Sequence}
      {last q : Pose.Sequence} (learn : ∀ s ∈ steps, s.kind = .learn)
      (review_kind : review.kind = .review)
      (copied : List.Forall₂ (Copied library beatsPerMeasure songs) steps copies)
      (last_eq : copies.getLast? = some last)
      (frames_eq : q.frames = copies.flatMap Pose.Sequence.frames)
      (header_eq : q.header = last.header) :
      Rehearsed library beatsPerMeasure songs (steps ++ [review]) (copies ++ [q])

/-- A section that is made up of lessons and a review repeats what it taught. -/
theorem rehearsed_of_sectionSequences {steps : List Step} {qs : List Pose.Sequence}
    (hkind : ∀ s ∈ steps, s.kind = .learn) (hsong : ∀ s ∈ steps, s.first ∈ songs.keys)
    (h : library.sectionSequences beatsPerMeasure songs .initial
      (steps ++ (reviewStep? steps).toList) = .ok qs) :
    Rehearsed library beatsPerMeasure songs (steps ++ (reviewStep? steps).toList) qs := by
  by_cases hnil : steps = []
  · subst hnil
    obtain rfl : [] = qs := Except.ok.inj h
    exact .nothing
  · obtain ⟨review, hreview, hreviewKind⟩ := exists_reviewStep?_eq_some hnil
    rw [hreview] at h ⊢
    obtain ⟨copies, qs', hcopies, rfl, hrest⟩ := sectionSequences_learn_append hkind hsong h
    rw [Option.toList_some, sectionSequences_review hreviewKind, foldl_after] at hrest
    obtain rfl := Except.ok.inj hrest
    have hne : copies ≠ [] := by
      rw [← List.length_pos_iff, ← hcopies.length_eq, List.length_pos_iff]
      exact hnil
    have hlast := List.getLast?_eq_some_getLast hne
    refine .lessons hkind hreviewKind (hcopies.imp fun _ _ htaught ↦ htaught.copied) hlast ?_ ?_
    · exact List.nil_append _
    · rw [reviewSequence, hlast]
      rfl

/-! ## Plans -/

/-- **Nothing is lost and nothing is made up on the way from sections to sequences.**  Every step of
a plan has one sequence, in the order of the steps; a lesson shows a copy of what the library holds
of its move, and the review of a section repeats all its lessons. -/
theorem sequences_rehearsed {level : Difficulty} {sections : List (List MoveEvent)} {p : Plan}
    (h : Practice.compile level sections = .ok p) {t t' : Session} (ht : t.Faithful library)
    {qs : List Pose.Sequence}
    (hqs : (Practice.sequences library beatsPerMeasure p).run t = (.ok qs, t')) :
    List.Forall₂ (fun s q ↦ s.kind = .learn → Copied library beatsPerMeasure p.songs s q)
      p.steps qs ∧
    ∃ perSection, qs = perSection.flatten ∧
      List.Forall₂ (fun s qs ↦ Rehearsed library beatsPerMeasure p.songs s.steps qs)
        p.sections perSection := by
  have hdirect : library.sequences beatsPerMeasure p = .ok qs := by
    obtain ⟨t'', hrun, -⟩ := computes_sequences p t ht
    rw [hqs] at hrun
    exact (congrArg Prod.fst hrun).symm
  constructor
  · have hsteps := sequences_eq_ok hdirect
    rw [List.filter_eq_self.2 fun s hs ↦ decide_eq_true (shown_of_mem_steps h hs)] at hsteps
    exact hsteps.imp fun _ _ htaught hlearn ↦ (htaught hlearn).copied
  · rw [Library.sequences, Outcome.bind_eq_ok_iff] at hdirect
    obtain ⟨perSection, hsections, hflatten⟩ := hdirect
    refine ⟨perSection, (Outcome.pure_eq_ok_iff.1 hflatten).symm, ?_⟩
    rw [Outcome.mapM_eq_ok_iff] at hsections
    refine ((List.forall₂_and_left _ _).2 ⟨fun _ hs ↦ hs, hsections⟩).imp ?_
    rintro s qs ⟨hs, hsection⟩
    obtain ⟨steps, hkind, hsteps⟩ :=
      exists_lessons_of_mem_sections (compile_eq_ok_iff.1 h).1 hs
    have hsong : ∀ l ∈ steps, l.first ∈ p.songs.keys := by
      intro l hl
      have hmem : l ∈ p.steps :=
        List.mem_flatMap.2 ⟨s, hs, hsteps ▸ List.mem_append_left _ hl⟩
      exact (shown_of_mem_steps h hmem).resolve_left (by simp [hkind l hl])
    rw [hsteps] at hsection ⊢
    exact rehearsed_of_sectionSequences hkind hsong hsection

/-- Two sections with a section without moves between them. -/
def rounds : List (List MoveEvent) :=
  [[⟨1, "wave_a", "dc1", "gonow", "wave_gonow"⟩, ⟨2, "clap_a", "dc1", "gonow", "clap_gonow"⟩], [],
    [⟨5, "step_a", "dc1", "gonow", "step_gonow"⟩, ⟨6, "spin_a", "dc1", "gonow", "spin_gonow"⟩]]

/-- The plan of `rounds`. -/
def roundsPlan : Plan where
  sections := [
    ⟨0, [⟨.learn, "wave", "clap", false, 1⟩, ⟨.learn, "clap", "step", true, 2⟩,
      ⟨.review, "wave", "step", true, 1⟩]⟩,
    ⟨1, []⟩,
    ⟨2, [⟨.learn, "step", "spin", false, 5⟩, ⟨.review, "step", "spin", false, 5⟩]⟩]
  songs := .ofList [("clap", ⟨"dc1", "gonow"⟩), ("spin", ⟨"dc1", "gonow"⟩),
    ("step", ⟨"dc1", "gonow"⟩), ("wave", ⟨"dc1", "gonow"⟩)]

/-- A library that holds two poses for every key. -/
def twoPoses : Library where
  loadMove k := .error (Library.noMove k.text k)
  loadSequence k := .ok ⟨k.name, ⟨3, k.name, 4⟩, [⟨0, 0, [1]⟩, ⟨0.5, 0, [2]⟩]⟩

theorem compile_rounds : Practice.compile .easy rounds = .ok roundsPlan := by
  refine compile_eq_ok_iff.2 ⟨by decide, ?_⟩
  rw [← Table.toList_inj]
  decide +kernel

theorem sequences_rehearsed_rounds :
    ∃ qs t', (Practice.sequences twoPoses 4 roundsPlan).run .initial = (.ok qs, t') ∧
      List.Forall₂ (fun s q ↦ s.kind = .learn → Copied twoPoses 4 roundsPlan.songs s q)
        roundsPlan.steps qs ∧
      ∃ perSection, qs = perSection.flatten ∧
        List.Forall₂ (fun s qs ↦ Rehearsed twoPoses 4 roundsPlan.songs s.steps qs)
          roundsPlan.sections perSection := by
  refine ⟨_, _, rfl, ?_⟩
  exact sequences_rehearsed compile_rounds (Session.faithful_initial twoPoses) rfl

end SongBundle
