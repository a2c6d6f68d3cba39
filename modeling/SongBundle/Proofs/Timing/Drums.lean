import Mathlib
import SongBundle.Proofs.Timing.Arrangement

/-!
# The drums of a song, beat by beat

A drum is hit at half beats, and a hit sounds from the start of its beat for half a beat.  The part of
the drums is sorted by tick; sorting being stable, the notes of a beat stay in the order in which
they are listed, drum by drum and hit by hit.

* `beatMessages` is what the part says at a beat: all notes of the beat start and then all of them
  stop.
* `mergeSort_strokes` is the one place that is about sorting.
* `Covered` says of messages that no note stops before it started, which stays true when such messages
  are put one after the other.
* `Drummed` is what the part has to be, and `drumPart_beats` says that it is.
-/

set_option autoImplicit false

namespace SongBundle.Timing

open Outcome

/-! ## Beats -/

/-- A hit as it sounds: at a beat and with a note. -/
structure Strike where
  beat : Nat
  key : Nat

namespace Strike

/-- The tick at which the note of a hit starts or stops. -/
def tick (n : Strike) (stops : Bool) : Nat := 480 * n.beat + if stops then 240 else 0

/-- The start or the stop of the note of a hit. -/
def stroke (n : Strike) (stops : Bool) : Stroke := ⟨n.tick stops, n.key, stops⟩

end Strike

/-- All hits, drum by drum. -/
def strikes (drums : List DrumTrack) : List Strike :=
  drums.flatMap fun d ↦ d.hits.map fun hit ↦ ⟨hit.toNat / 2, drumNote d.sound⟩

/-- The notes of the hits of a beat, drum by drum. -/
def beatNotes (drums : List DrumTrack) (beat : Nat) : List Nat :=
  drums.flatMap fun d ↦ (d.hits.filter fun hit ↦ hit.toNat / 2 = beat).map fun _ ↦ drumNote d.sound

/-- All notes of a beat start, and half a beat later all of them stop. -/
def beatMessages (drums : List DrumTrack) (beat : Nat) : List (Nat × Message) :=
  (beatNotes drums beat).map (fun key ↦ (480 * beat, .noteOn key 100)) ++
    (beatNotes drums beat).map (fun key ↦ (480 * beat + 240, .noteOff key))

variable {drums : List DrumTrack}

theorem mem_strikes {n : Strike} :
    n ∈ strikes drums ↔
      ∃ d ∈ drums, ∃ hit ∈ d.hits, (⟨hit.toNat / 2, drumNote d.sound⟩ : Strike) = n := by
  simp [strikes]

theorem length_strikes (drums : List DrumTrack) :
    (strikes drums).length = (drums.flatMap DrumTrack.hits).length := by
  induction drums with
  | nil => rfl
  | cons d drums ih =>
    have hcons : strikes (d :: drums) =
        (d.hits.map fun hit ↦ ⟨hit.toNat / 2, drumNote d.sound⟩) ++ strikes drums :=
      List.flatMap_cons
    rw [hcons, List.length_append, List.length_map, ih, List.flatMap_cons, List.length_append]

theorem beatNotes_eq (drums : List DrumTrack) (beat : Nat) :
    beatNotes drums beat = ((strikes drums).filter (·.beat = beat)).map Strike.key := by
  rw [beatNotes, strikes, List.filter_flatMap, List.map_flatMap]
  simp only [List.filter_map, List.map_map]
  rfl

/-! ## Strokes -/

/-- The note of a hit that is early enough stops before the last tick. -/
theorem stopTick_eq {beat : Nat} (h : beat * ticksPerBeat < tickLimit) :
    stopTick (beat * ticksPerBeat) = beat * ticksPerBeat + 240 := by
  have hbeat : ticksPerBeat = 480 := rfl
  have hgate : drumGate = 240 := rfl
  have hlimit : tickLimit = 4294967296 := rfl
  rw [hbeat, hlimit] at h
  rw [stopTick, hbeat, hgate, hlimit]
  -- the last beat starts 256 ticks before the limit, which leaves room for the gate
  omega

/-- A hit makes two strokes if it is early enough. -/
theorem hitStrokes_eq_ok_iff {sound : String} (hit : UInt32) (strokes : List Stroke) :
    hitStrokes sound hit = .ok strokes ↔
      hit.toNat / 2 * ticksPerBeat < tickLimit ∧
        [false, true].map (Strike.stroke ⟨hit.toNat / 2, drumNote sound⟩) = strokes := by
  rw [hitStrokes]
  by_cases h : hit.toNat / 2 * ticksPerBeat < tickLimit
  · have hbeat : ticksPerBeat = 480 := rfl
    rw [if_pos h, stopTick_eq h, and_iff_right h, Except.ok.injEq, Nat.mul_comm, hbeat]
    rfl
  · simp [h]

/-- The part of the drums sorts the strokes of all hits, which are early enough. -/
theorem entries_of_drumPart {p : Part} (h : drumPart drums = .ok p) :
    (∀ d ∈ drums, ∀ hit ∈ d.hits, hit.toNat / 2 * ticksPerBeat < tickLimit) ∧
      p.entries.map (fun e ↦ (e.tick, e.message)) =
        (((strikes drums).flatMap fun n ↦ [false, true].map n.stroke).mergeSort
          Stroke.precedes).map fun s ↦ (s.tick, s.message) := by
  have hdrum (d : DrumTrack) (strokes : List Stroke) : drumStrokes d = .ok strokes ↔
      (∀ hit ∈ d.hits, hit.toNat / 2 * ticksPerBeat < tickLimit) ∧
        (d.hits.map fun hit ↦
          [false, true].map (Strike.stroke ⟨hit.toNat / 2, drumNote d.sound⟩)).flatten =
          strokes := by
    simp only [drumStrokes, map_eq_ok_iff, mapM_eq_ok_iff_map hitStrokes_eq_ok_iff, and_assoc,
      exists_and_left, exists_eq_left']
  obtain ⟨perDrum, hperDrum, hp⟩ := bind_eq_ok_iff.1 h
  obtain ⟨hearly, rfl⟩ := (mapM_eq_ok_iff_map hdrum).1 hperDrum
  obtain ⟨entries, hentries, rfl⟩ := map_eq_ok_iff.1 hp
  refine ⟨hearly, (map_entriesFrom hentries).trans ?_⟩
  rw [strikes, List.flatMap_assoc]
  simp only [List.flatMap_map]
  rfl

/-! ## Sorting -/

/-- A condition that only elements with one key meet picks the same elements of a list and of its
groups by key. -/
theorem flatMap_filter_filter {α : Type} {key : α → Nat} {p : α → Bool} {as : List α}
    {keys : List Nat} (hkeys : keys.Nodup) (hmem : ∀ a ∈ as, key a ∈ keys)
    (hp : ∀ a ∈ as, ∀ b ∈ as, p a = true → p b = true → key a = key b) :
    (keys.flatMap fun k ↦ (as.filter (key · = k)).filter p) = as.filter p := by
  by_cases hnone : ∀ a ∈ as, ¬p a = true
  · rw [List.filter_eq_nil_iff.2 hnone, List.flatMap_eq_nil_iff]
    exact fun k _ ↦ List.filter_eq_nil_iff.2 fun a ha ↦ hnone a (List.mem_filter.1 ha).1
  · obtain ⟨a, ha, hpa⟩ : ∃ a ∈ as, p a = true := by simpa using hnone
    have hgroup : (as.filter (key · = key a)).filter p = as.filter p := by
      rw [List.filter_filter]
      refine List.filter_congr fun b hb ↦ ?_
      cases hpb : p b with
      | false => rfl
      | true => simpa using hp b hb a ha hpb hpa
    have hother {ks : List Nat} (hks : key a ∉ ks) :
        (ks.flatMap fun k ↦ (as.filter (key · = k)).filter p) = [] := by
      refine List.flatMap_eq_nil_iff.2 fun k hk ↦ List.filter_eq_nil_iff.2 fun b hb hpb ↦ ?_
      obtain ⟨hb, hkb⟩ := List.mem_filter.1 hb
      refine hks ?_
      rwa [← hp b hb a ha hpb hpa, of_decide_eq_true hkb]
    obtain ⟨before, after, rfl⟩ := List.append_of_mem (hmem a ha)
    rw [List.nodup_middle, List.nodup_cons, List.mem_append, not_or] at hkeys
    rw [List.flatMap_append, List.flatMap_cons, hother hkeys.1.1, hother hkeys.1.2, hgroup,
      List.nil_append, List.append_nil]

/-- The strokes with which the notes of a beat start or stop. -/
def strokesAt (drums : List DrumTrack) (beat : Nat) (stops : Bool) : List Stroke :=
  ((strikes drums).filter (·.beat = beat)).map (·.stroke stops)

/-- The strokes of a beat in their order. -/
def beatStrokes (drums : List DrumTrack) (beat : Nat) : List Stroke :=
  strokesAt drums beat false ++ strokesAt drums beat true

theorem of_mem_strokesAt {beat : Nat} {stops : Bool} {s : Stroke}
    (h : s ∈ strokesAt drums beat stops) :
    s.tick = 480 * beat + (if stops then 240 else 0) ∧ s.stops = stops := by
  obtain ⟨n, hn, rfl⟩ := List.mem_map.1 h
  rw [← of_decide_eq_true (List.mem_filter.1 hn).2]
  exact ⟨rfl, rfl⟩

/-- Beat by beat, strokes are sorted. -/
theorem pairwise_beatStrokes {beats : List Nat} (hbeats : beats.Pairwise (· < ·)) :
    (beats.flatMap (beatStrokes drums)).Pairwise fun a b ↦ a.precedes b = true := by
  simp only [Stroke.precedes_iff]
  have hsame (beat : Nat) (stops : Bool) : (strokesAt drums beat stops).Pairwise fun a b ↦
      a.tick < b.tick ∨ a.tick = b.tick ∧ (a.stops = false ∨ b.stops = true) := by
    refine List.pairwise_of_forall_mem_list fun a ha b hb ↦ .inr ?_
    obtain ⟨hticka, hstopsa⟩ := of_mem_strokesAt ha
    obtain ⟨htickb, hstopsb⟩ := of_mem_strokesAt hb
    exact ⟨hticka.trans htickb.symm, by cases stops <;> simp [hstopsa, hstopsb]⟩
  refine List.pairwise_flatMap.2 ⟨fun beat _ ↦ ?_, hbeats.imp fun hlt a ha b hb ↦ .inl ?_⟩
  · refine List.pairwise_append.2 ⟨hsame beat false, hsame beat true, fun a ha b hb ↦ .inl ?_⟩
    rw [(of_mem_strokesAt ha).1, (of_mem_strokesAt hb).1]
    simp
  · have hrange {beat : Nat} {s : Stroke} (hs : s ∈ beatStrokes drums beat) :
        480 * beat ≤ s.tick ∧ s.tick ≤ 480 * beat + 240 := by
      rcases List.mem_append.1 hs with hs | hs <;> simp [(of_mem_strokesAt hs).1]
    have ha := hrange ha
    have hb := hrange hb
    omega

/-- A stroke is tied with that of the same kind of a hit, if with any. -/
theorem tied_stroke (a : Stroke) (n : Strike) (stops : Bool) :
    tied Stroke.precedes a (n.stroke stops) =
      (decide (a.stops = stops) && decide (a.tick = n.tick a.stops)) := by
  rw [Bool.eq_iff_iff, Stroke.tied_precedes_iff, Bool.and_eq_true, decide_eq_true_iff,
    decide_eq_true_iff, and_comm]
  refine and_congr_right fun hstops ↦ ?_
  rw [hstops]
  rfl

theorem filter_tied_strokes (a : Stroke) (ns : List Strike) :
    (ns.flatMap fun n ↦ [false, true].map n.stroke).filter (tied Stroke.precedes a) =
      (ns.filter fun n ↦ a.tick = n.tick a.stops).map (·.stroke a.stops) := by
  induction ns with
  | nil => rfl
  | cons n ns ih =>
    rw [List.flatMap_cons, List.filter_append, ih]
    cases hstops : a.stops <;> by_cases htick : a.tick = n.tick a.stops <;>
      simp_all [tied_stroke]

theorem filter_tied_beatStrokes (a : Stroke) (beat : Nat) :
    (beatStrokes drums beat).filter (tied Stroke.precedes a) =
      (((strikes drums).filter (·.beat = beat)).filter fun n ↦
        a.tick = n.tick a.stops).map (·.stroke a.stops) := by
  cases hstops : a.stops <;>
    simp [beatStrokes, strokesAt, List.filter_map, Function.comp_def, tied_stroke, hstops]

/-- Sorting the strokes of all hits puts them in order beat by beat. -/
theorem mergeSort_strokes {beats : List Nat} (hbeats : beats.Pairwise (· < ·))
    (hmem : ∀ n ∈ strikes drums, n.beat ∈ beats) :
    ((strikes drums).flatMap fun n ↦ [false, true].map n.stroke).mergeSort Stroke.precedes =
      beats.flatMap (beatStrokes drums) := by
  refine eq_of_filter_tied_eq Stroke.precedes_total
    (List.pairwise_mergeSort Stroke.precedes_trans Stroke.precedes_total _)
    (pairwise_beatStrokes hbeats) fun a ↦ ?_
  rw [filter_tied_mergeSort Stroke.precedes_trans Stroke.precedes_total, filter_tied_strokes,
    List.filter_flatMap]
  simp only [filter_tied_beatStrokes]
  rw [← List.map_flatMap, flatMap_filter_filter (hbeats.imp Nat.ne_of_lt) hmem]
  -- hits with strokes of one kind at one tick are hits of one beat
  intro n _ m _ hn hm
  have htick := (of_decide_eq_true hn).symm.trans (of_decide_eq_true hm)
  rw [Strike.tick, Strike.tick] at htick
  omega

/-! ## Messages -/

theorem map_beatStrokes (drums : List DrumTrack) (beat : Nat) :
    (beatStrokes drums beat).map (fun s ↦ (s.tick, s.message)) = beatMessages drums beat := by
  have hkind (stops : Bool) : (strokesAt drums beat stops).map (fun s ↦ (s.tick, s.message)) =
      (beatNotes drums beat).map fun key ↦ (480 * beat + (if stops then 240 else 0),
        if stops then .noteOff key else .noteOn key 100) := by
    rw [strokesAt, beatNotes_eq, List.map_map, List.map_map]
    refine List.map_congr_left fun n hn ↦ ?_
    rw [← of_decide_eq_true (List.mem_filter.1 hn).2]
    rfl
  rw [beatStrokes, List.map_append, hkind, hkind]
  rfl

/-- What the part of the drums says, and when. -/
theorem messages_of_drumPart {p : Part} (h : drumPart drums = .ok p) {beats : List Nat}
    (hbeats : beats.Pairwise (· < ·)) (hmem : ∀ n ∈ strikes drums, n.beat ∈ beats) :
    p.entries.map (fun e ↦ (e.tick, e.message)) = beats.flatMap (beatMessages drums) := by
  rw [(entries_of_drumPart h).2, mergeSort_strokes hbeats hmem, List.map_flatMap]
  simp only [map_beatStrokes]

/-- Every hit makes two entries. -/
theorem length_of_drumPart {p : Part} (h : drumPart drums = .ok p) :
    p.entries.length = 2 * (drums.flatMap DrumTrack.hits).length := by
  have htwo (ns : List Strike) :
      (ns.flatMap fun n ↦ [false, true].map n.stroke).length = 2 * ns.length := by
    induction ns with
    | nil => rfl
    | cons n ns ih =>
      rw [List.flatMap_cons, List.length_append, ih, List.length_cons, Nat.mul_succ]
      exact Nat.add_comm 2 _
  have hlength := congrArg List.length (entries_of_drumPart h).2
  rwa [List.length_map, List.length_map, List.length_mergeSort, htwo, length_strikes] at hlength

/-! ## Notes that start and stop -/

/-- A message that starts a note. -/
def Message.starts (key : Nat) : Message → Bool
  | noteOn k _ => k == key
  | _ => false

/-- A message that stops a note. -/
def Message.stops (key : Nat) : Message → Bool
  | noteOff k => k == key
  | _ => false

/-- No note has stopped more often than it started, as far as one listens. -/
def Covered (key : Nat) (messages : List (Nat × Message)) : Prop :=
  ∀ n, (messages.take n).countP (·.2.stops key) ≤ (messages.take n).countP (·.2.starts key)

theorem Covered.append {key : Nat} {messages messages' : List (Nat × Message)}
    (h : Covered key messages) (h' : Covered key messages') :
    Covered key (messages ++ messages') := by
  intro n
  rw [List.take_append, List.countP_append, List.countP_append]
  exact Nat.add_le_add (h n) (h' _)

theorem covered_beatMessages (key beat : Nat) : Covered key (beatMessages drums beat) := by
  intro n
  -- the notes that have stopped are the first ones of those that have started
  have hfirst : ((beatNotes drums beat).take (n - (beatNotes drums beat).length)).countP (· == key) ≤
      ((beatNotes drums beat).take n).countP (· == key) :=
    (List.take_prefix_take_left (Nat.sub_le n _)).sublist.countP_le
  simpa [beatMessages, List.take_append, ← List.map_take, List.countP_map, Function.comp_def,
    Message.stops, Message.starts] using hfirst

theorem covered_beats (key : Nat) (beats : List Nat) :
    Covered key (beats.flatMap (beatMessages drums)) := by
  induction beats with
  | nil => exact fun n ↦ by simp
  | cons beat beats ih => exact (covered_beatMessages key beat).append ih

/-- At the end of a beat every note has stopped as often as it started. -/
theorem countP_beatMessages (key beat : Nat) :
    (beatMessages drums beat).countP (·.2.stops key) =
      (beatMessages drums beat).countP (·.2.starts key) := by
  simp [beatMessages, List.countP_append, List.countP_map, Function.comp_def, Message.stops,
    Message.starts]

theorem countP_beats (key : Nat) (beats : List Nat) :
    (beats.flatMap (beatMessages drums)).countP (·.2.stops key) =
      (beats.flatMap (beatMessages drums)).countP (·.2.starts key) := by
  simp only [List.countP_flatMap, Function.comp_def, countP_beatMessages]

theorem tick_of_starts {key beat : Nat} {m : Nat × Message} (hm : m ∈ beatMessages drums beat)
    (h : m.2.starts key = true) : m.1 = 480 * beat := by
  rcases List.mem_append.1 hm with hm | hm
  · obtain ⟨k, -, rfl⟩ := List.mem_map.1 hm
    rfl
  · obtain ⟨k, -, rfl⟩ := List.mem_map.1 hm
    cases h

theorem tick_of_stops {key beat : Nat} {m : Nat × Message} (hm : m ∈ beatMessages drums beat)
    (h : m.2.stops key = true) : m.1 = 480 * beat + 240 := by
  rcases List.mem_append.1 hm with hm | hm
  · obtain ⟨k, -, rfl⟩ := List.mem_map.1 hm
    cases h
  · obtain ⟨k, -, rfl⟩ := List.mem_map.1 hm
    rfl

/-! ## The part of the drums -/

/-- How often a note has started within the first entries of a part. -/
def Part.starts (p : Part) (key n : Nat) : Nat := (p.entries.take n).countP (·.message.starts key)

/-- How often a note has stopped within the first entries of a part. -/
def Part.stops (p : Part) (key n : Nat) : Nat := (p.entries.take n).countP (·.message.stops key)

section

variable {p : Part} {messages : List (Nat × Message)}
  (h : p.entries.map (fun e ↦ (e.tick, e.message)) = messages)

include h

theorem Part.starts_eq (key n : Nat) :
    p.starts key n = (messages.take n).countP (·.2.starts key) := by
  rw [← h, ← List.map_take, List.countP_map]
  rfl

theorem Part.stops_eq (key n : Nat) :
    p.stops key n = (messages.take n).countP (·.2.stops key) := by
  rw [← h, ← List.map_take, List.countP_map]
  rfl

end

/-- A part plays drums beat by beat. -/
structure Drummed (drums : List DrumTrack) (p : Part) (beats : List Nat) : Prop where
  ascending : beats.Pairwise (· < ·)
  mem_beats : ∀ beat, beat ∈ beats ↔ ∃ d ∈ drums, ∃ hit ∈ d.hits, hit.toNat / 2 = beat
  messages_eq : p.entries.map (fun e ↦ (e.tick, e.message)) = beats.flatMap (beatMessages drums)
  /-- All notes stop before the last tick, half a beat after they start. -/
  stopTick_eq : ∀ d ∈ drums, ∀ hit ∈ d.hits,
    stopTick (480 * (hit.toNat / 2)) = 480 * (hit.toNat / 2) + 240
  /-- At no tick one note starts and another one stops. -/
  tick_ne : ∀ e ∈ p.entries, ∀ e' ∈ p.entries, ∀ key key',
    e.message.starts key = true → e'.message.stops key' = true → e.tick ≠ e'.tick
  stops_le : ∀ key n, p.stops key n ≤ p.starts key n
  /-- At the end of a beat all its notes have stopped. -/
  stops_eq : ∀ key done, done <+: beats →
    p.stops key (done.flatMap (beatMessages drums)).length =
      p.starts key (done.flatMap (beatMessages drums)).length
  length_eq : p.entries.length = 2 * (drums.flatMap DrumTrack.hits).length

/-- Beats at which drums are hit can be listed in order. -/
theorem exists_beats (drums : List DrumTrack) :
    ∃ beats : List Nat, beats.Pairwise (· < ·) ∧
      ∀ beat, beat ∈ beats ↔ ∃ n ∈ strikes drums, n.beat = beat := by
  refine ⟨((strikes drums).map Strike.beat).toFinset.sort, (Finset.sortedLT_sort _).pairwise,
    fun beat ↦ ?_⟩
  rw [Finset.mem_sort, List.mem_toFinset, List.mem_map]

/-- **Drums are played beat by beat.**  At each beat that is hit all its notes start together, in the
order in which they are listed, and half a beat later they stop in the same order.  So the end of a
note is never cut off, no note stops when another one starts or before it has started itself, and
none is left sounding. -/
theorem drumPart_beats {p : Part} (h : drumPart drums = .ok p) :
    ∃ beats, Drummed drums p beats := by
  obtain ⟨beats, hbeats, hmem⟩ := exists_beats drums
  have hmessages := messages_of_drumPart h hbeats fun n hn ↦ (hmem n.beat).2 ⟨n, hn, rfl⟩
  have hsaid {e : Entry} (he : e ∈ p.entries) :
      ∃ beat, (e.tick, e.message) ∈ beatMessages drums beat := by
    have hmem : (e.tick, e.message) ∈ beats.flatMap (beatMessages drums) :=
      hmessages ▸ List.mem_map_of_mem he
    obtain ⟨beat, -, hm⟩ := List.mem_flatMap.1 hmem
    exact ⟨beat, hm⟩
  refine ⟨beats, hbeats, fun beat ↦ ?_, hmessages, fun d hd hit hhit ↦ ?_,
    fun e he e' he' key key' hstart hstop ↦ ?_, fun key n ↦ ?_, fun key done hdone ↦ ?_,
    length_of_drumPart h⟩
  · simp only [hmem, mem_strikes]
    constructor
    · rintro ⟨n, ⟨d, hd, hit, hhit, rfl⟩, rfl⟩
      exact ⟨d, hd, hit, hhit, rfl⟩
    · rintro ⟨d, hd, hit, hhit, rfl⟩
      exact ⟨_, ⟨d, hd, hit, hhit, rfl⟩, rfl⟩
  · rw [Nat.mul_comm]
    exact stopTick_eq ((entries_of_drumPart h).1 d hd hit hhit)
  · obtain ⟨beat, hm⟩ := hsaid he
    obtain ⟨beat', hm'⟩ := hsaid he'
    have htick : e.tick = 480 * beat := tick_of_starts hm hstart
    have htick' : e'.tick = 480 * beat' + 240 := tick_of_stops hm' hstop
    omega
  · rw [Part.starts_eq hmessages, Part.stops_eq hmessages]
    exact covered_beats key beats n
  · obtain ⟨rest, rfl⟩ := hdone
    rw [Part.starts_eq hmessages, Part.stops_eq hmessages, List.flatMap_append, List.take_left]
    exact countP_beats key done

/-- Drums two of which share a note, with a hit that is listed twice and two that fall on one beat. -/
def sharedNotes : List DrumTrack := [⟨"kick", [5, 0, 4]⟩, ⟨"cowbell", [1, 1]⟩, ⟨"gong", [4]⟩]

/-- What these drums sound like. -/
def sharedBeats : Part where
  name := "DRUMS"
  entries := [⟨0, 0, .noteOn 36 100⟩, ⟨0, 0, .noteOn 60 100⟩, ⟨0, 0, .noteOn 60 100⟩,
    ⟨240, 240, .noteOff 36⟩, ⟨240, 0, .noteOff 60⟩, ⟨240, 0, .noteOff 60⟩,
    ⟨960, 720, .noteOn 36 100⟩, ⟨960, 0, .noteOn 36 100⟩, ⟨960, 0, .noteOn 60 100⟩,
    ⟨1200, 240, .noteOff 36⟩, ⟨1200, 0, .noteOff 36⟩, ⟨1200, 0, .noteOff 60⟩]

theorem drumPart_beats_shared :
    drumPart sharedNotes = .ok sharedBeats ∧ ∃ beats, Drummed sharedNotes sharedBeats beats := by
  have hpart : drumPart sharedNotes = .ok sharedBeats := by cbv
  exact ⟨hpart, drumPart_beats hpart⟩

end SongBundle.Timing
