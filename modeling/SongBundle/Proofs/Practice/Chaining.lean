import SongBundle.Proofs.Practice.Plan

/-!
# A plan chains the moves of its sections

What a practice plan says, read off the moves of all sections in a row: the sections of the input
divide this row and may be empty anywhere, but a lesson always leads from one move of the row to the
next.

* `Chains` is the whole statement, one field for each part of a plan.
* `compile_chains` holds of every plan, and `compile_chains_medley` is a plan with empty sections
  and with moves of two songs under one short name.
-/

set_option autoImplicit false

namespace SongBundle.Practice

variable {level : Difficulty} {sections : List (List MoveEvent)} {p : Plan}

/-- A plan has a section for each one given, by its index.  The lessons are one fewer than the
moves: the `i`-th leads from the `i`-th move to the next and is in the section of the former.  After
its lessons a section has a review from the first to the last of them, if there are any.  A short
name belongs to the song of the first move that has it. -/
structure Chains (sections : List (List MoveEvent)) (p : Plan) : Prop where
  indices : p.sections.map Section.index = List.range sections.length
  length_lessons : (placedLessons p.sections).length = sections.flatten.length - 1
  lesson : ∀ i e next, (placed 0 sections)[i]? = some e → (placed 0 sections)[i + 1]? = some next →
    (placedLessons p.sections)[i]? =
      some (e.1, ⟨.learn, shortName e.2, shortName next.2, e.1 ≠ next.1, e.2.measure⟩)
  steps : ∀ s ∈ p.sections, s.lessons = [] ∧ s.steps = [] ∨
    ∃ first last, s.lessons.head? = some first ∧ s.lessons.getLast? = some last ∧
      s.steps = s.lessons ++ [⟨.review, first.first, last.next, last.crosses, first.measure⟩]
  names : ∀ name, name ∈ p.songs.keys ↔ ∃ e ∈ sections.flatten, shortName e = name
  songs : ∀ name, p.songs.get? name =
    (sections.flatten.find? (shortName · = name)).map fun e ↦ ⟨e.origin, e.song⟩

/-- After the lessons of a section comes nothing but a review of them. -/
theorem steps_eq_of_mem_sections (h : compile level sections = .ok p) {s : Section}
    (hs : s ∈ p.sections) : s.steps = s.lessons ++ (reviewStep? s.lessons).toList := by
  obtain ⟨steps, hkind, hsteps⟩ := exists_lessons_of_mem_sections (compile_eq_ok_iff.1 h).1 hs
  have hlessons : s.lessons = steps := by
    rw [Section.lessons, hsteps, List.filter_append, filter_reviewStep?, List.append_nil,
      List.filter_eq_self]
    exact fun l hl ↦ decide_eq_true (hkind l hl)
  rw [hlessons, hsteps]

theorem mem_keys_songs (h : compile level sections = .ok p) (name : String) :
    name ∈ p.songs.keys ↔ ∃ e ∈ sections.flatten, shortName e = name := by
  simp only [Table.mem_keys_iff, get?_songs h, ← Option.isSome_iff_exists, Option.isSome_map,
    List.find?_isSome, decide_eq_true_eq]

/-- **A plan chains the moves of its sections**, however they are divided. -/
theorem compile_chains (h : compile level sections = .ok p) : Chains sections p := by
  obtain ⟨hsections, -⟩ := compile_eq_ok_iff.1 h
  have hchain := placedLessons_compileSections hsections
  refine ⟨?_, ?_, fun i e next he hnext ↦ ?_, fun s hs ↦ ?_, mem_keys_songs h, get?_songs h⟩
  · rw [index_compileSections hsections, List.range_eq_range']
  · rw [hchain, List.length_map, length_consecutivePairs, ← map_snd_placed 0 sections,
      List.length_map]
  · rw [hchain, List.getElem?_map, getElem?_consecutivePairs he hnext]
    rfl
  · rw [steps_eq_of_mem_sections h hs]
    by_cases hnil : s.lessons = []
    · exact .inl ⟨hnil, by rw [hnil]; rfl⟩
    · have hfirst := List.head?_eq_some_head hnil
      have hlast := List.getLast?_eq_some_getLast hnil
      refine .inr ⟨_, _, hfirst, hlast, ?_⟩
      rw [reviewStep?, hfirst, hlast]
      rfl

/-- Moves with empty sections before and between them; one short name belongs to two songs. -/
def medley : List (List MoveEvent) :=
  [[], [⟨1, "wave_a", "dc1", "gonow", "wave_gonow"⟩,
    ⟨2, "clap_a", "dc1", "gonow", "clap_gonow.move"⟩], [], [],
    [⟨5, "wave_b", "dc2", "other", "wave_other"⟩]]

/-- The plan of `medley`. -/
def medleyPlan : Plan where
  sections := [⟨0, []⟩,
    ⟨1, [⟨.learn, "wave", "clap", false, 1⟩, ⟨.learn, "clap", "wave", true, 2⟩,
      ⟨.review, "wave", "wave", true, 1⟩]⟩,
    ⟨2, []⟩, ⟨3, []⟩, ⟨4, []⟩]
  songs := .ofList [("clap", ⟨"dc1", "gonow"⟩), ("wave", ⟨"dc1", "gonow"⟩)]

theorem compile_chains_medley :
    compile .easy medley = .ok medleyPlan ∧ Chains medley medleyPlan := by
  have h : compile .easy medley = .ok medleyPlan := by
    refine compile_eq_ok_iff.2 ⟨by decide, ?_⟩
    rw [← Table.toList_inj]
    decide +kernel
  exact ⟨h, compile_chains h⟩

end SongBundle.Practice
