import SongBundle.Practice
import SongBundle.Proofs.Table

/-!
# What a practice plan teaches

The sections of a plan are chained: whatever the sections are, the plan teaches every move of the
song but the last, in order, together with the move that comes after it.

* `learnSteps_eq_ok_iff` is the closed form of the lessons of one section.
* `placedLessons_compileSections` chains the sections: the lessons are the pairs of consecutive
  moves, and `placed` says in which section they are.
* `get?_songs` says that the first move with a short name decides where the name belongs.
-/

set_option autoImplicit false

namespace SongBundle.Practice

variable {level : Difficulty} {index : Nat}

/-! ## One section -/

/-- The moves that follow those of a section, and whether they belong to a later section. -/
def following (later : List (List MoveEvent)) (moves : List MoveEvent) : List (MoveEvent × Bool) :=
  moves.tail.map (·, false) ++ (later.flatten.head?.map (·, true)).toList

/-- The lessons of a section. -/
def lessons (later : List (List MoveEvent)) (moves : List MoveEvent) : List Step :=
  (moves.zip (following later moves)).map fun p ↦ learnStep p.1 p.2.1 p.2.2

theorem lessons_cons_cons (later : List (List MoveEvent)) (e next : MoveEvent)
    (moves : List MoveEvent) :
    lessons later (e :: next :: moves) =
      learnStep e next false :: lessons later (next :: moves) := rfl

/-- **The lessons of a section exist unless nothing follows its last move, and then they are
`lessons`.** -/
theorem learnSteps_eq_ok_iff {later : List (List MoveEvent)} {moves : List MoveEvent}
    {steps : List Step} :
    learnSteps level index later moves = .ok steps ↔
      (moves ≠ [] → later ≠ [] → later.flatten ≠ []) ∧ lessons later moves = steps := by
  match moves with
  | [] =>
    rw [learnSteps, Except.ok.injEq]
    simp [lessons]
  | [e] =>
    have hfirst : firstMove? later = later.flatten.head? := List.head?_flatten.symm
    rw [learnSteps, hfirst]
    simp only [lessons, following, List.isEmpty_iff, List.tail_cons, List.map_nil, List.nil_append]
    by_cases hlater : later = []
    · simp [hlater]
    · cases hhead : later.flatten.head? with
      | none => simp [hlater, List.head?_eq_none_iff.1 hhead]
      | some next =>
        have hne : later.flatten ≠ [] := fun h ↦ by simp [h] at hhead
        simp [hlater, hne]
  | e :: next :: moves =>
    rw [learnSteps, Outcome.bind_eq_ok_iff, lessons_cons_cons]
    simp only [learnSteps_eq_ok_iff, Outcome.pure_eq_ok_iff]
    simp

/-! ## All sections -/

/-- The lessons of a compiled section. -/
def Section.lessons (s : Section) : List Step := s.steps.filter (·.kind = .learn)

theorem filter_lessons (later : List (List MoveEvent)) (moves : List MoveEvent) :
    (lessons later moves).filter (·.kind = .learn) = lessons later moves := by
  rw [List.filter_eq_self]
  intro s hs
  obtain ⟨p, -, rfl⟩ := List.mem_map.1 hs
  rfl

theorem filter_reviewStep? (steps : List Step) :
    (reviewStep? steps).toList.filter (·.kind = .learn) = [] := by
  rw [reviewStep?]
  split <;> rfl

/-- A section compiles to its lessons and a review of them, if the sections after it compile. -/
theorem exists_of_compileSections_cons {moves : List MoveEvent} {later : List (List MoveEvent)}
    {sections : List Section} (h : compileSections level index (moves :: later) = .ok sections) :
    ∃ rest, compileSections level (index + 1) later = .ok rest ∧
      sections =
        ⟨index, lessons later moves ++ (reviewStep? (lessons later moves)).toList⟩ :: rest := by
  rw [compileSections, Outcome.bind_eq_ok_iff] at h
  obtain ⟨steps, hsteps, h⟩ := h
  obtain ⟨rest, hrest, h⟩ := Outcome.bind_eq_ok_iff.1 h
  obtain ⟨-, rfl⟩ := learnSteps_eq_ok_iff.1 hsteps
  exact ⟨rest, hrest, (Except.ok.inj h).symm⟩

/-- A section of a plan consists of lessons and of a review of them, if there are any. -/
theorem exists_lessons_of_mem_sections {moves : List (List MoveEvent)} {sections : List Section}
    (h : compileSections level index moves = .ok sections) {s : Section} (hs : s ∈ sections) :
    ∃ steps, (∀ l ∈ steps, l.kind = .learn) ∧ s.steps = steps ++ (reviewStep? steps).toList := by
  induction moves generalizing index sections with
  | nil =>
    obtain rfl : [] = sections := Except.ok.inj h
    cases hs
  | cons moves later ih =>
    obtain ⟨rest, hrest, rfl⟩ := exists_of_compileSections_cons h
    rcases List.mem_cons.1 hs with rfl | hs
    · refine ⟨_, fun l hl ↦ ?_, rfl⟩
      exact of_decide_eq_true (List.filter_eq_self.1 (filter_lessons later moves) l hl)
    · exact ih hrest hs

theorem index_compileSections {moves : List (List MoveEvent)} {sections : List Section}
    (h : compileSections level index moves = .ok sections) :
    sections.map Section.index = List.range' index moves.length := by
  induction moves generalizing index sections with
  | nil =>
    obtain rfl : [] = sections := Except.ok.inj h
    rfl
  | cons moves later ih =>
    obtain ⟨rest, hrest, rfl⟩ := exists_of_compileSections_cons h
    exact congrArg (index :: ·) (ih hrest)

/-! ## The chain of lessons -/

/-- The moves of all sections in order, each with the index of its section. -/
def placed (index : Nat) (sections : List (List MoveEvent)) : List (Nat × MoveEvent) :=
  (sections.zipIdx index).flatMap fun s ↦ s.1.map (s.2, ·)

/-- The lessons of all sections in order, each with the index of its section. -/
def placedLessons (sections : List Section) : List (Nat × Step) :=
  sections.flatMap fun s ↦ s.lessons.map (s.index, ·)

/-- The lesson on a move and the one after it, in the section of the first. -/
def placedLesson (e next : Nat × MoveEvent) : Nat × Step :=
  (e.1, learnStep e.2 next.2 (e.1 ≠ next.1))

theorem placed_cons (index : Nat) (moves : List MoveEvent) (later : List (List MoveEvent)) :
    placed index (moves :: later) = moves.map (index, ·) ++ placed (index + 1) later := rfl

theorem map_snd_placed (index : Nat) (sections : List (List MoveEvent)) :
    (placed index sections).map Prod.snd = sections.flatten := by
  induction sections generalizing index with
  | nil => rfl
  | cons moves later ih =>
    rw [placed_cons, List.map_append, ih, List.map_map, List.flatten_cons]
    exact congrArg (· ++ later.flatten) (List.map_id moves)

theorem map_snd_placedLessons (sections : List Section) :
    (placedLessons sections).map Prod.snd =
      (sections.flatMap Section.steps).filter (·.kind = .learn) := by
  rw [placedLessons, List.map_flatMap, List.filter_flatMap]
  simp [Section.lessons, Function.comp_def]

theorem le_of_mem_placed {sections : List (List MoveEvent)} {e : Nat × MoveEvent}
    (h : e ∈ placed index sections) : index ≤ e.1 := by
  obtain ⟨s, hs, he⟩ := List.mem_flatMap.1 h
  obtain ⟨_, -, rfl⟩ := List.mem_map.1 he
  exact List.le_snd_of_mem_zipIdx hs

/-- What follows a move of a section belongs to a later section exactly if it is placed elsewhere. -/
theorem following_eq_map (index : Nat) (later : List (List MoveEvent)) (moves : List MoveEvent) :
    following later moves =
      ((moves.map (index, ·)).tail ++ (placed (index + 1) later).head?.toList).map
        fun q ↦ (q.2, decide (index ≠ q.1)) := by
  have hnext : later.flatten.head? = (placed (index + 1) later).head?.map Prod.snd := by
    rw [← map_snd_placed (index + 1) later, List.head?_map]
  rw [following, hnext, List.map_append, ← List.map_tail, List.map_map]
  refine congrArg₂ (· ++ ·) (by simp [Function.comp_def]) ?_
  cases hhead : (placed (index + 1) later).head? with
  | none => rfl
  | some next =>
    -- later sections have greater indices, so the two ways to say where a move is placed agree
    have hlt : index < next.1 := le_of_mem_placed (List.mem_of_mem_head? hhead)
    simp [Nat.ne_of_lt hlt]

theorem map_lessons (later : List (List MoveEvent)) (moves : List MoveEvent) :
    (lessons later moves).map (index, ·) =
      ((moves.map (index, ·)).zip
        ((moves.map (index, ·)).tail ++ (placed (index + 1) later).head?.toList)).map
          fun q ↦ placedLesson q.1 q.2 := by
  rw [lessons, following_eq_map index, List.zip_map_right, List.zip_map_left]
  simp [Function.comp_def, placedLesson]

/-- **Sections are chained: the lessons of all sections teach the pairs of consecutive moves of the
song, in order and each in the section of its first move.** -/
theorem placedLessons_compileSections {moves : List (List MoveEvent)} {sections : List Section}
    (h : compileSections level index moves = .ok sections) :
    placedLessons sections =
      (placed index moves).consecutivePairs.map fun q ↦ placedLesson q.1 q.2 := by
  induction moves generalizing index sections with
  | nil =>
    obtain rfl : [] = sections := Except.ok.inj h
    rfl
  | cons moves later ih =>
    obtain ⟨rest, hrest, rfl⟩ := exists_of_compileSections_cons h
    -- the last lesson of this section leads into the first move of a later one
    rw [placedLessons, List.flatMap_cons, ← placedLessons, ih hrest, placed_cons,
      consecutivePairs_append, List.map_append, Section.lessons, List.filter_append, filter_lessons,
      filter_reviewStep?, List.append_nil, map_lessons]

/-! ## Where short names belong -/

/-- The song an event takes its move from. -/
def songOf (e : MoveEvent) : SongRef := ⟨e.origin, e.song⟩

theorem get?_noteSong (songs : Table String SongRef) (e : MoveEvent) (name : String) :
    (noteSong songs e).get? name =
      (songs.get? name).or (if shortName e = name then some (songOf e) else none) := by
  rw [noteSong]
  by_cases hname : shortName e = name
  · subst hname
    cases hsong : songs.get? (shortName e) with
    | none => simp [Table.contains, hsong, Table.get?_insert_eq, songOf]
    | some song => simp [Table.contains, hsong]
  · rw [if_neg hname, Option.or_none]
    split
    · rfl
    · rw [Table.get?_insert_eq, if_neg (Ne.symm hname)]

/-- Songs noted already stay; a new short name belongs to the song of the first event with it. -/
theorem get?_foldl_noteSong (songs : Table String SongRef) (events : List MoveEvent)
    (name : String) :
    (events.foldl noteSong songs).get? name =
      (songs.get? name).or ((events.find? (shortName · = name)).map songOf) := by
  induction events generalizing songs with
  | nil => simp
  | cons e events ih =>
    rw [List.foldl_cons, ih, get?_noteSong, Option.or_assoc]
    by_cases hname : shortName e = name <;> simp [hname]

/-! ## The whole plan -/

variable {sections : List (List MoveEvent)} {p : Plan}

theorem compile_eq_ok_iff :
    compile level sections = .ok p ↔
      compileSections level 0 sections = .ok p.sections ∧
        sections.flatten.foldl noteSong .empty = p.songs := by
  obtain ⟨compiled, songs⟩ := p
  rw [compile, Outcome.bind_eq_ok_iff]
  simp [Outcome.pure_eq_ok_iff]

/-- The first event with a short name says where the name belongs. -/
theorem get?_songs (h : compile level sections = .ok p) (name : String) :
    p.songs.get? name = (sections.flatten.find? (shortName · = name)).map songOf := by
  rw [← (compile_eq_ok_iff.1 h).2, get?_foldl_noteSong, Table.get?_empty, Option.none_or]

/-- A plan teaches every move but the last, together with the one that comes next. -/
theorem forall₂_learn_steps (h : compile level sections = .ok p) :
    List.Forall₂ (fun q s ↦ s = learnStep q.1 q.2 s.crosses) sections.flatten.consecutivePairs
      (p.steps.filter (·.kind = .learn)) := by
  have hchain := placedLessons_compileSections (compile_eq_ok_iff.1 h).1
  rw [Plan.steps, ← map_snd_placedLessons, hchain, ← map_snd_placed 0 sections,
    consecutivePairs_map, List.map_map, List.forall₂_map_left_iff, List.forall₂_map_right_iff,
    List.forall₂_same]
  exact fun _ _ ↦ rfl

end SongBundle.Practice
