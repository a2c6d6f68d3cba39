import SongBundle.Proofs.Practice.Plan
import SongBundle.Proofs.Practice.Sequences

/-!
# Which move a lesson shows

A step knows its move by the short name only, and a plan has one song for a short name.  So a lesson
shows the *namesake* of its move, the first move of all sections that has the same short name.

* `Plan.keyOf?` is the key under which a plan looks for the poses of a step.
* `keyOf?_learn` says that this is the key of the namesake, if full names can be recovered from
  short ones, and when it is the key of the move itself.
* `shows_namesakes` follows the key into the library: the frames of a lesson are those of the
  namesake, placed at the beat of the lesson.
* `lessons_show_namesakes` is both together.
-/

set_option autoImplicit false

namespace SongBundle.Practice

/-- The full name of the move of an event can be recovered from its short name. -/
def Recoverable (e : MoveEvent) : Prop :=
  MoveName.qualified (shortName e) e.song = MoveName.stripExtension e.move

instance : DecidablePred Recoverable := fun e ↦
  inferInstanceAs (Decidable
    (MoveName.qualified (shortName e) e.song = MoveName.stripExtension e.move))

/-- The key under which a plan looks for the poses of a step. -/
def Plan.keyOf? (p : Plan) (s : Step) : Option MoveKey := (p.songs.get? s.first).map (stepKey s)

/-- The first of some events with the short name of `e`. -/
def namesake (events : List MoveEvent) (e : MoveEvent) : MoveEvent :=
  (events.find? (shortName · = shortName e)).getD e

section

variable {level : Difficulty} {sections : List (List MoveEvent)} {p : Plan}

theorem find?_namesake {events : List MoveEvent} {e : MoveEvent} (he : e ∈ events) :
    events.find? (shortName · = shortName e) = some (namesake events e) := by
  obtain ⟨e', h⟩ : ∃ e', events.find? (shortName · = shortName e) = some e' := by
    rw [← Option.isSome_iff_exists, List.find?_isSome]
    exact ⟨e, he, decide_eq_true rfl⟩
  rw [namesake, h, Option.getD_some]

theorem namesake_mem {events : List MoveEvent} {e : MoveEvent} (he : e ∈ events) :
    namesake events e ∈ events := List.mem_of_find?_eq_some (find?_namesake he)

theorem shortName_namesake {events : List MoveEvent} {e : MoveEvent} (he : e ∈ events) :
    shortName (namesake events e) = shortName e := by
  simpa using List.find?_some (find?_namesake he)

/-- Moves with the same short name have the same key if they belong to the same song. -/
theorem ofEvent_inj {e e' : MoveEvent} (he : Recoverable e) (he' : Recoverable e')
    (hname : shortName e' = shortName e) :
    MoveKey.ofEvent e' = .ofEvent e ↔ e'.origin = e.origin ∧ e'.song = e.song := by
  rw [MoveKey.ofEvent, MoveKey.ofEvent, MoveKey.mk.injEq, ← he, ← he', hname]
  exact ⟨fun ⟨horigin, hsong, _⟩ ↦ ⟨horigin, hsong⟩,
    fun ⟨horigin, hsong⟩ ↦ ⟨horigin, hsong, hsong ▸ rfl⟩⟩

/-! ## In a plan -/

/-- Under the short name of a move stands the key of its namesake. -/
theorem keyOf?_of_first (h : compile level sections = .ok p)
    (hrecover : ∀ e ∈ sections.flatten, Recoverable e) {e : MoveEvent}
    (he : e ∈ sections.flatten) {s : Step} (hs : s.first = shortName e) :
    p.keyOf? s = some (.ofEvent (namesake sections.flatten e)) := by
  have hname := shortName_namesake he
  rw [Plan.keyOf?, get?_songs h, hs, find?_namesake he]
  have hkey := hrecover _ (namesake_mem he)
  rw [Recoverable, hname, ← hs] at hkey
  simp [stepKey, songOf, MoveKey.ofEvent, hkey]

/-- The moves that have a lesson are all but the last, in order. -/
theorem forall₂_dropLast (h : compile level sections = .ok p) :
    List.Forall₂ (fun e s ↦ e ∈ sections.flatten ∧ s.first = shortName e ∧ s.measure = e.measure)
      sections.flatten.dropLast (p.steps.filter (·.kind = .learn)) := by
  rw [List.forall₂_and_left]
  refine ⟨fun e he ↦ List.dropLast_subset _ he, ?_⟩
  rw [← map_fst_consecutivePairs, List.forall₂_map_left_iff]
  refine (forall₂_learn_steps h).imp fun q s hs ↦ ?_
  rw [hs]
  exact ⟨rfl, rfl⟩

/-- The lesson of a move looks for the poses of its namesake.  That is the move itself exactly if
the namesake belongs to the same song. -/
theorem keyOf?_learn (h : compile level sections = .ok p)
    (hrecover : ∀ e ∈ sections.flatten, Recoverable e) :
    List.Forall₂
      (fun e s ↦ p.keyOf? s = some (.ofEvent (namesake sections.flatten e)) ∧
        (p.keyOf? s = some (.ofEvent e) ↔
          (namesake sections.flatten e).origin = e.origin ∧
            (namesake sections.flatten e).song = e.song))
      sections.flatten.dropLast (p.steps.filter (·.kind = .learn)) := by
  refine (forall₂_dropLast h).imp fun e s ⟨he, hfirst, _⟩ ↦ ?_
  have hkey := keyOf?_of_first h hrecover he hfirst
  refine ⟨hkey, ?_⟩
  rw [hkey, Option.some.injEq]
  exact ofEvent_inj (hrecover e he) (hrecover _ (namesake_mem he)) (shortName_namesake he)

/-- A plan places every lesson in a song, so that none is left out. -/
theorem shown_of_mem_steps (h : compile level sections = .ok p) {s : Step} (hs : s ∈ p.steps) :
    Shown p.songs s := by
  have hlearn : ∀ s ∈ p.steps.filter (·.kind = .learn), s.first ∈ p.songs.keys := by
    refine forall_mem_of_forall₂ ((forall₂_dropLast h).imp fun e s ⟨he, hfirst, _⟩ ↦ ?_)
    rw [Table.mem_keys_iff, get?_songs h, hfirst, find?_namesake he]
    exact ⟨_, rfl⟩
  cases hkind : s.kind with
  | review => exact .inl hkind
  | learn => exact .inr (hlearn s (List.mem_filter.2 ⟨hs, decide_eq_true hkind⟩))

/-! ## In the library -/

/-- A lesson shows the poses of its namesake: they are those that the library holds under the key of
that move, each of them placed at the beat where the lesson starts. -/
def ShowsNamesake (library : Library) (beatsPerMeasure : UInt32) (events : List MoveEvent)
    (e : MoveEvent) (q : Pose.Sequence) : Prop :=
  ∃ source beat, library.loadSequence (.ofEvent (namesake events e)) = .ok source ∧
    startBeat? beatsPerMeasure e.measure = some beat ∧
    q.frames = source.frames.map fun f ↦ { f with offset := beat.toFloat32 }

theorem showsNamesake_of_taught (h : compile level sections = .ok p)
    (hrecover : ∀ e ∈ sections.flatten, Recoverable e) {library : Library}
    {beatsPerMeasure : UInt32} {e : MoveEvent} (he : e ∈ sections.flatten) {s : Step}
    (hfirst : s.first = shortName e) (hmeasure : s.measure = e.measure) {q : Pose.Sequence}
    (hq : Taught library beatsPerMeasure p.songs s q) :
    ShowsNamesake library beatsPerMeasure sections.flatten e q := by
  obtain ⟨song, beat, source, hsong, hbeat, hsource, rfl⟩ := hq
  have hkey := keyOf?_of_first h hrecover he hfirst
  rw [Plan.keyOf?, hsong, Option.map_some, Option.some.injEq] at hkey
  exact ⟨source, beat, hkey ▸ hsource, hmeasure ▸ hbeat, rfl⟩

/-- The sequences of a plan, however much a session remembers. -/
theorem shows_namesakes (h : compile level sections = .ok p)
    (hrecover : ∀ e ∈ sections.flatten, Recoverable e) {library : Library}
    {beatsPerMeasure : UInt32} {t t' : Session} (ht : t.Faithful library)
    {qs : List Pose.Sequence}
    (hqs : (sequences library beatsPerMeasure p).run t = (.ok qs, t')) :
    p.steps.length = qs.length ∧
      List.Forall₂ (ShowsNamesake library beatsPerMeasure sections.flatten)
        sections.flatten.dropLast
        (((p.steps.zip qs).filter (·.1.kind = .learn)).map Prod.snd) := by
  have hsteps : library.sequences beatsPerMeasure p = .ok qs := by
    obtain ⟨t'', hrun, -⟩ := computes_sequences p t ht
    rw [hqs] at hrun
    exact (congrArg Prod.fst hrun).symm
  replace hsteps := sequences_eq_ok hsteps
  rw [List.filter_eq_self.2 fun s hs ↦ decide_eq_true (shown_of_mem_steps h hs)] at hsteps
  refine ⟨hsteps.length_eq, ?_⟩
  have htaught : List.Forall₂ (Taught library beatsPerMeasure p.songs)
      (p.steps.filter (·.kind = .learn))
      (((p.steps.zip qs).filter (·.1.kind = .learn)).map Prod.snd) :=
    forall₂_filter_zip (hsteps.imp fun s q hq hlearn ↦ hq (of_decide_eq_true hlearn))
  exact (forall₂_comp (forall₂_dropLast h) htaught).imp
    fun e q ⟨s, ⟨he, hfirst, hmeasure⟩, hq⟩ ↦
      showsNamesake_of_taught h hrecover he hfirst hmeasure hq

/-- **A lesson shows the namesake of its move**: its key is that of the namesake, which is its own
key exactly if the namesake belongs to the same song, and its frames are those that the library
holds under that key.  No step of the plan is left out. -/
theorem lessons_show_namesakes (h : compile level sections = .ok p)
    (hrecover : ∀ e ∈ sections.flatten, Recoverable e) :
    List.Forall₂
      (fun e s ↦ s.first = shortName e ∧ s.measure = e.measure ∧
        p.keyOf? s = some (.ofEvent (namesake sections.flatten e)) ∧
        (p.keyOf? s = some (.ofEvent e) ↔
          (namesake sections.flatten e).origin = e.origin ∧
            (namesake sections.flatten e).song = e.song))
      sections.flatten.dropLast (p.steps.filter (·.kind = .learn)) ∧
    ∀ (library : Library) (beatsPerMeasure : UInt32) (t t' : Session) (qs : List Pose.Sequence),
      t.Faithful library → (sequences library beatsPerMeasure p).run t = (.ok qs, t') →
        p.steps.length = qs.length ∧
        List.Forall₂ (ShowsNamesake library beatsPerMeasure sections.flatten)
          sections.flatten.dropLast
          (((p.steps.zip qs).filter (·.1.kind = .learn)).map Prod.snd) := by
  refine ⟨?_, fun _ _ _ _ _ ht hqs ↦ shows_namesakes h hrecover ht hqs⟩
  refine (forall₂_dropLast h).mp (fun e s ⟨_, hfirst, hmeasure⟩ hkey ↦ ?_)
    (keyOf?_learn h hrecover)
  exact ⟨hfirst, hmeasure, hkey⟩

end

/-- Moves of two songs with the short name `wave`. -/
def waves : List (List MoveEvent) :=
  [[⟨1, "wave", "dc1", "gonow", "wave_gonow"⟩, ⟨2, "wave", "dc1", "other", "wave_other"⟩,
    ⟨3, "wave", "dc1", "gonow", "wave_gonow"⟩]]

/-- The plan of `waves`. -/
def wavesPlan : Plan where
  sections := [⟨0, [⟨.learn, "wave", "wave", false, 1⟩, ⟨.learn, "wave", "wave", false, 2⟩,
    ⟨.review, "wave", "wave", false, 1⟩]⟩]
  songs := .ofList [("wave", ⟨"dc1", "gonow"⟩)]

theorem compile_waves : compile .easy waves = .ok wavesPlan := by
  refine compile_eq_ok_iff.2 ⟨by decide, ?_⟩
  rw [← Table.toList_inj]
  decide +kernel

theorem recoverable_waves : ∀ e ∈ waves.flatten, Recoverable e := by decide

/-- The lessons of `waves`, as a library shows them that holds one pose for every key. -/
theorem lessons_show_namesakes_waves :
    ∃ qs t', (sequences ⟨fun k ↦ .error (Library.noMove k.text k),
        fun k ↦ .ok ⟨k.text, .default, [⟨1, 0, [0.5]⟩]⟩⟩ 4 wavesPlan).run .initial = (.ok qs, t') ∧
      List.Forall₂
        (ShowsNamesake ⟨fun k ↦ .error (Library.noMove k.text k),
          fun k ↦ .ok ⟨k.text, .default, [⟨1, 0, [0.5]⟩]⟩⟩ 4 waves.flatten)
        waves.flatten.dropLast
        (((wavesPlan.steps.zip qs).filter (·.1.kind = .learn)).map Prod.snd) := by
  refine ⟨_, _, rfl, ?_⟩
  exact ((lessons_show_namesakes compile_waves recoverable_waves).2 _ 4 .initial _ _
    (Session.faithful_initial _) rfl).2

/-- The second lesson of `waves` does not look for the poses of its own move. -/
theorem exists_lesson_of_other_move :
    ∃ sections p, compile .easy sections = .ok p ∧ (∀ e ∈ sections.flatten, Recoverable e) ∧
      ¬List.Forall₂ (fun e s ↦ p.keyOf? s = some (.ofEvent e))
        sections.flatten.dropLast (p.steps.filter (·.kind = .learn)) := by
  refine ⟨waves, wavesPlan, compile_waves, recoverable_waves, fun h ↦ ?_⟩
  have hsecond := h.get (i := 1) (by decide) (by decide)
  revert hsecond
  decide

end SongBundle.Practice
