import Mathlib.Algebra.Group.Nat.Defs
import SongBundle.Proofs.Basic
import SongBundle.Proofs.Outcome
import SongBundle.Timing.Score

/-!
# What a compiled score consists of

The numbers of a score go into fields of fixed width.  `Message.Fits` and `Entry.Fits` say how wide
these are, and `fits_of_compile` that every compiled score keeps to them: the checks on the way see
to tempo and distance, and the table of notes to the keys.
-/

set_option autoImplicit false

namespace SongBundle.Timing

/-- The numbers of a message fit into their fields. -/
def Message.Fits : Message → Prop
  | timeSignature numerator halvings => numerator < 2 ^ 8 ∧ halvings < 2 ^ 8
  | tempo micros => micros < 2 ^ 24
  | marker _ => True
  | noteOn key velocity => key < 2 ^ 7 ∧ velocity < 2 ^ 7
  | noteOff key => key < 2 ^ 7

/-- The numbers of an entry fit into their fields. -/
structure Entry.Fits (e : Entry) : Prop where
  delta : e.delta < 2 ^ 28
  message : e.message.Fits

/-! ## Messages -/

/-- A change of tempo that says something has a tempo and a tick. -/
theorem tempoMessage_eq_ok_iff {beatsPerMeasure : UInt32} {c : TempoChange} {m : Nat × Message} :
    tempoMessage beatsPerMeasure c = .ok m ↔ isPositive c.bpm = true ∧
      ∃ micros tick, beatMicros? c.bpm = some micros ∧
        measureTick? beatsPerMeasure c.measure = some tick ∧ (tick, .tempo micros) = m := by
  rw [tempoMessage]
  cases isPositive c.bpm with
  | false => simp
  | true => cases beatMicros? c.bpm <;> cases measureTick? beatsPerMeasure c.measure <;> simp

theorem lt_of_beatMicros? {bpm : Float} {micros : Nat} (h : beatMicros? bpm = some micros) :
    micros < 2 ^ 24 :=
  of_decide_eq_true (Option.filter_eq_some_iff.1 h).2

theorem measureTick?_eq_some_iff {beatsPerMeasure measure : UInt32} {tick : Nat} :
    measureTick? beatsPerMeasure measure = some tick ↔
      tick = measure.toNat * beatsPerMeasure.toNat * ticksPerBeat ∧ tick < 2 ^ 32 := by
  rw [measureTick?, Option.filter_eq_some_iff, Option.some.injEq, decide_eq_true_iff]
  exact and_congr_left' eq_comm

theorem fits_tempoMessage {beatsPerMeasure : UInt32} {c : TempoChange} {m : Nat × Message}
    (h : tempoMessage beatsPerMeasure c = .ok m) : m.2.Fits := by
  obtain ⟨-, micros, tick, hmicros, -, rfl⟩ := tempoMessage_eq_ok_iff.1 h
  exact lt_of_beatMicros? hmicros

theorem fits_markerMessage {e : SongEvent} {m : Nat × Message} (h : markerMessage e = .ok m) :
    m.2.Fits := by
  rw [markerMessage] at h
  split at h
  · cases h
  split at h
  · cases h
  · obtain rfl := Except.ok.inj h
    trivial

theorem drumNote_lt (sound : String) : drumNote sound < 2 ^ 7 := by
  have hnotes : ∀ note ∈ drumNotes, note.2 < 2 ^ 7 := by decide
  rw [drumNote]
  cases hlookup : drumNotes.lookup sound with
  | none => decide
  | some note =>
    obtain ⟨before, after, hsplit, -⟩ := List.lookup_eq_some_iff.1 hlookup
    exact hnotes (sound, note) (by simp [hsplit])

/-- Every stroke of a drum has its note. -/
theorem key_of_drumStrokes {d : DrumTrack} {strokes : List Stroke}
    (h : drumStrokes d = .ok strokes) : ∀ s ∈ strokes, s.key = drumNote d.sound := by
  obtain ⟨perHit, hhits, rfl⟩ := Outcome.map_eq_ok_iff.1 h
  have hhit : ∀ (hit : UInt32) (ss : List Stroke), hitStrokes d.sound hit = .ok ss →
      ∀ s ∈ ss, s.key = drumNote d.sound := by
    intro hit ss hss
    rw [hitStrokes] at hss
    split at hss
    · obtain rfl := Except.ok.inj hss
      simp
    · cases hss
  have hperHit := forall_mem_of_forall₂
    ((Outcome.mapM_eq_ok_iff.1 hhits).imp fun hit ss hss ↦ hhit hit ss hss)
  intro s hs
  obtain ⟨ss, hss, hs⟩ := List.mem_flatten.1 hs
  exact hperHit ss hss s hs

theorem fits_message {s : Stroke} (h : s.key < 2 ^ 7) : s.message.Fits := by
  rw [Stroke.message]
  split
  · exact h
  · exact ⟨h, by decide⟩

/-! ## Parts -/

theorem delta_lt_of_entriesFrom {part : String} {last : Nat} {messages : List (Nat × Message)}
    {entries : List Entry} (h : entriesFrom part last messages = .ok entries) :
    ∀ e ∈ entries, e.delta < deltaLimit := by
  induction messages generalizing last entries with
  | nil =>
    obtain rfl := Except.ok.inj h
    exact fun e he ↦ absurd he List.not_mem_nil
  | cons m messages ih =>
    obtain ⟨tick, message⟩ := m
    rw [entriesFrom] at h
    split at h
    · cases h
    split at h
    · cases h
    rename_i hdelta
    obtain ⟨later, hlater, rfl⟩ := Outcome.map_eq_ok_iff.1 h
    intro e he
    rcases List.mem_cons.1 he with rfl | he
    · exact Nat.lt_of_not_le hdelta
    · exact ih hlater e he

/-- A part made of messages that fit has entries that fit. -/
theorem fits_of_ofTicks {name : String} {messages : List (Nat × Message)} {p : Part}
    (h : Part.ofTicks name messages = .ok p) (hmessages : ∀ m ∈ messages, m.2.Fits) :
    p.name = name ∧ ∀ e ∈ p.entries, e.Fits := by
  obtain ⟨entries, hentries, rfl⟩ := Outcome.map_eq_ok_iff.1 h
  refine ⟨rfl, fun e he ↦ ⟨delta_lt_of_entriesFrom hentries e he, ?_⟩⟩
  have hmem : (e.tick, e.message) ∈ messages :=
    map_entriesFrom hentries ▸ List.mem_map_of_mem he
  exact hmessages _ hmem

theorem fits_tempoPart {changes : List TempoChange} {beatsPerMeasure : UInt32} {p : Part}
    (h : tempoPart changes beatsPerMeasure = .ok p) :
    p.name = "TEMPO" ∧ ∀ e ∈ p.entries, e.Fits := by
  obtain ⟨messages, hmessages, h⟩ := Outcome.bind_eq_ok_iff.1 h
  refine fits_of_ofTicks h (List.forall_mem_cons.2 ⟨?_, ?_⟩)
  · exact ⟨Nat.lt_succ_of_le (Nat.min_le_right _ 255), by decide⟩
  · exact forall_mem_of_forall₂
      ((Outcome.mapM_eq_ok_iff.1 hmessages).imp fun _ _ hm ↦ fits_tempoMessage hm)

theorem fits_markerPart {events : List SongEvent} {p : Part} (h : markerPart events = .ok p) :
    p.name = "EVENTS" ∧ ∀ e ∈ p.entries, e.Fits := by
  obtain ⟨messages, hmessages, h⟩ := Outcome.bind_eq_ok_iff.1 h
  refine fits_of_ofTicks h (forall_mem_of_forall₂
    ((Outcome.mapM_eq_ok_iff.1 hmessages).imp fun _ _ hm ↦ fits_markerMessage hm))

theorem fits_drumPart {drums : List DrumTrack} {p : Part} (h : drumPart drums = .ok p) :
    p.name = "DRUMS" ∧ ∀ e ∈ p.entries, e.Fits := by
  obtain ⟨strokes, hstrokes, h⟩ := Outcome.bind_eq_ok_iff.1 h
  have hkeys := forall_mem_of_forall₂
    ((Outcome.mapM_eq_ok_iff.1 hstrokes).imp fun d ss hss s hs ↦
      key_of_drumStrokes hss s hs ▸ drumNote_lt d.sound)
  refine fits_of_ofTicks h fun m hm ↦ ?_
  obtain ⟨s, hs, rfl⟩ := List.mem_map.1 hm
  obtain ⟨ss, hss, hs⟩ := List.mem_flatten.1 (List.mem_mergeSort.1 hs)
  exact fits_message (hkeys ss hss s hs)

theorem Score.compile_eq_ok_iff {changes : List TempoChange} {events : List SongEvent}
    {drums : List DrumTrack} {beatsPerMeasure : UInt32} {s : Score} :
    Score.compile changes events drums beatsPerMeasure = .ok s ↔
      tempoPart changes beatsPerMeasure = .ok s.tempo ∧ markerPart events = .ok s.markers ∧
        drumPart drums = .ok s.drums := by
  simp only [Score.compile, Outcome.bind_eq_ok_iff, Outcome.pure_eq_ok_iff]
  constructor
  · rintro ⟨tempo, htempo, markers, hmarkers, drums, hdrums, rfl⟩
    exact ⟨htempo, hmarkers, hdrums⟩
  · rintro ⟨htempo, hmarkers, hdrums⟩
    exact ⟨_, htempo, _, hmarkers, _, hdrums, rfl⟩

theorem Score.exists_compile_nil (beatsPerMeasure : UInt32) :
    ∃ s, Score.compile [] [] [] beatsPerMeasure = .ok s := by
  simp only [Score.compile, tempoPart, markerPart, drumPart, List.mergeSort_nil, List.mapM_nil,
    pure_bind, List.flatten_nil, List.map_nil]
  exact ⟨_, rfl⟩

/-- The parts of a compiled score fit. -/
theorem fits_of_compile {changes : List TempoChange} {events : List SongEvent}
    {drums : List DrumTrack} {beatsPerMeasure : UInt32} {s : Score}
    (h : Score.compile changes events drums beatsPerMeasure = .ok s) :
    s.parts.map Part.name = ["TEMPO", "EVENTS", "DRUMS"] ∧
      ∀ p ∈ s.parts, ∀ e ∈ p.entries, e.Fits := by
  obtain ⟨htempo, hmarkers, hdrums⟩ := Score.compile_eq_ok_iff.1 h
  obtain ⟨htempo, hfits₁⟩ := fits_tempoPart htempo
  obtain ⟨hmarkers, hfits₂⟩ := fits_markerPart hmarkers
  obtain ⟨hdrums, hfits₃⟩ := fits_drumPart hdrums
  refine ⟨by simp [Score.parts, htempo, hmarkers, hdrums], ?_⟩
  simpa [Score.parts] using ⟨hfits₁, hfits₂, hfits₃⟩

end SongBundle.Timing
