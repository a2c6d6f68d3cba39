import SongBundle.Proofs.Decimal.Quotient
import SongBundle.Proofs.Timing.Advancing

/-!
# How long a beat can be

A score counts the microseconds of a beat.  A tempo that is too slow for the field is refused, but
none is too fast: beats get shorter until they take no time at all.

* `one_le_iff_of_beatMicros?` says from which tempo on this is so.  The length of a beat is a
  rounded quotient, which gets no greater with the tempo, so two neighbouring tempos settle it.
* `ByMeasure` is the order in which changes of tempo are said.
* `tempo_of_compile` is about all changes of a compiled score, and `exists_beat_of_no_time` about
  one that is too fast.
-/

set_option autoImplicit false

namespace SongBundle.Timing

open Outcome

/-! ## Beats -/

/-- The greatest tempo of which a beat takes a microsecond. -/
def fastest : Float := 120000000

/-- The least tempo above that. -/
def tooFast : Float := 120000000.00000002

theorem le_fastest_or_tooFast_le {bpm : Float} (h : isPositive bpm = true) :
    bpm ≤ fastest ∨ ¬bpm ≤ fastest ∧ tooFast ≤ bpm := by
  obtain ⟨hfinite, hpos⟩ := Bool.and_eq_true_iff.1 h
  obtain ⟨m, e, hm, hunpack, -⟩ := exists_unpack_of_pos hfinite (of_decide_eq_true hpos)
  have hfastest : fastest.toModel.unpack = .finite .positive dividend (-26) (by decide) := rfl
  have htooFast : tooFast.toModel.unpack = .finite .positive (dividend + 1) (-26) (by decide) := rfl
  rw [le_iff_of_unpack hunpack hfastest, le_iff_of_unpack htooFast hunpack]
  omega

/-- A beat takes some time unless its tempo is too fast. -/
theorem one_le_iff_of_beatMicros? {bpm : Float} (h : isPositive bpm = true) {micros : Nat}
    (hmicros : beatMicros? bpm = some micros) : 1 ≤ micros ↔ bpm ≤ fastest := by
  obtain ⟨hfinite, hpos⟩ := Bool.and_eq_true_iff.1 h
  have hpos := of_decide_eq_true hpos
  have hmicros := (Option.filter_eq_some_iff.1 hmicros).1
  have hone : (FloatValue.ofDouble (60000000 / fastest)).nearest? = some 1 := by decide
  have hnone : (FloatValue.ofDouble (60000000 / tooFast)).nearest? = some 0 := by decide
  rcases le_fastest_or_tooFast_le h with hle | ⟨hnot, hge⟩
  · exact iff_of_true (nearest?_div_anti hfinite hpos (by decide) (by decide) hle hmicros hone) hle
  · have hzero := nearest?_div_anti (by decide) (by decide) hfinite hpos hge hnone hmicros
    exact iff_of_false hzero.not_gt hnot

/-! ## Changes -/

/-- A list has certain changes by measure, those of one measure in the order of the others. -/
structure ByMeasure (changes sorted : List TempoChange) : Prop where
  perm : sorted.Perm changes
  ascending : sorted.Pairwise fun c c' ↦ c.measure ≤ c'.measure
  stable : ∀ measure : UInt32,
    sorted.filter (fun c ↦ c.measure = measure) = changes.filter fun c ↦ c.measure = measure

/-- What a score says of a change of tempo: when it comes, to the tick, and the length of its
beats. -/
structure Says (beatsPerMeasure : UInt32) (c : TempoChange) (e : Entry) : Prop where
  tick_eq : e.tick = c.measure.toNat * beatsPerMeasure.toNat * 480
  tick_lt : e.tick < 2 ^ 32
  message : ∃ micros, e.message = .tempo micros ∧ micros ≤ 2 ^ 24 - 1 ∧
    (1 ≤ micros ↔ c.bpm ≤ 120000000)

theorem byMeasure_mergeSort (changes : List TempoChange) :
    ByMeasure changes (changes.mergeSort fun a b ↦ a.measure ≤ b.measure) where
  perm := List.mergeSort_perm _ _
  ascending := pairwise_mergeSort_by TempoChange.measure changes
  stable measure := by
    have hstable := filter_tied_mergeSort (trans_by TempoChange.measure)
      (total_by TempoChange.measure) ⟨measure, 0⟩ changes
    have htied : tied (fun a b : TempoChange ↦ decide (a.measure ≤ b.measure)) ⟨measure, 0⟩ =
        fun c ↦ decide (c.measure = measure) := by
      funext c
      rw [Bool.eq_iff_iff, tied_iff, decide_eq_true_iff, decide_eq_true_iff, decide_eq_true_iff]
      exact ⟨fun ⟨hle, hge⟩ ↦ Std.le_antisymm hge hle, fun h ↦ h ▸ ⟨Std.le_refl _, Std.le_refl _⟩⟩
    rwa [htied] at hstable

theorem says_of_tempoMessage {beatsPerMeasure : UInt32} {c : TempoChange} {e : Entry}
    (h : tempoMessage beatsPerMeasure c = .ok (e.tick, e.message)) : Says beatsPerMeasure c e := by
  obtain ⟨hpos, micros, tick, hmicros, htick, hentry⟩ := tempoMessage_eq_ok_iff.1 h
  obtain ⟨rfl, hmessage⟩ := Prod.mk.inj hentry
  obtain ⟨heq, hlt⟩ := measureTick?_eq_some_iff.1 htick
  exact ⟨heq, hlt, micros, hmessage.symm, Nat.le_pred_of_lt (lt_of_beatMicros? hmicros),
    one_le_iff_of_beatMicros? hpos hmicros⟩

/-- **The tempo of a score.**  It starts with the time signature.  Then the changes follow by
measure, each of them at the very tick at which its measure starts.  The length of a beat fits into
its field, and it is zero for the tempos above 120000000 beats a minute. -/
theorem tempo_of_compile {changes : List TempoChange} {events : List SongEvent}
    {drums : List DrumTrack} {beatsPerMeasure : UInt32} {s : Score}
    (h : Score.compile changes events drums beatsPerMeasure = .ok s) :
    ∃ sorted first rest, ByMeasure changes sorted ∧ s.tempo.entries = first :: rest ∧
      first.tick = 0 ∧ first.message = signature beatsPerMeasure ∧
      List.Forall₂ (Says beatsPerMeasure) sorted rest := by
  obtain ⟨htempo, -, -⟩ := Score.compile_eq_ok_iff.1 h
  obtain ⟨messages, hmessages, hpart⟩ := bind_eq_ok_iff.1 htempo
  obtain ⟨entries, hentries, hp⟩ := map_eq_ok_iff.1 hpart
  obtain ⟨first, rest, rfl, hfirst, hrest⟩ := List.map_eq_cons_iff.1 (map_entriesFrom hentries)
  obtain ⟨htick, hmessage⟩ := Prod.mk.inj hfirst
  refine ⟨_, first, rest, byMeasure_mergeSort changes, hp ▸ rfl, htick, hmessage, ?_⟩
  rw [mapM_eq_ok_iff, ← hrest, List.forall₂_map_right_iff] at hmessages
  exact hmessages.imp fun _ _ ↦ says_of_tempoMessage

/-- Changes that are listed last to first, the first one to a tempo that is too fast. -/
def rush : List TempoChange := [⟨2, 60⟩, ⟨0, 1000000000⟩, ⟨0, 120⟩]

/-- The score of these changes. -/
def rushed : Score where
  tempo := ⟨"TEMPO", [⟨0, 0, .timeSignature 4 2⟩, ⟨0, 0, .tempo 0⟩, ⟨0, 0, .tempo 500000⟩,
    ⟨3840, 3840, .tempo 1000000⟩]⟩
  markers := ⟨"EVENTS", []⟩
  drums := ⟨"DRUMS", []⟩

theorem compile_rush : Score.compile rush [] [] 4 = .ok rushed := by
  have htempo : tempoPart rush 4 = .ok rushed.tempo := by
    have hsorted : rush.mergeSort (fun a b ↦ a.measure ≤ b.measure) =
        [⟨0, 1000000000⟩, ⟨0, 120⟩, ⟨2, 60⟩] := by cbv
    have hmessages : [(⟨0, 1000000000⟩ : TempoChange), ⟨0, 120⟩, ⟨2, 60⟩].mapM (tempoMessage 4) =
        .ok [(0, .tempo 0), (0, .tempo 500000), (3840, .tempo 1000000)] := rfl
    rw [tempoPart, hsorted, hmessages]
    rfl
  have hmarkers : markerPart [] = .ok rushed.markers := by
    rw [markerPart, List.mergeSort_nil]
    rfl
  have hdrums : drumPart [] = .ok rushed.drums := by cbv
  exact Score.compile_eq_ok_iff.2 ⟨htempo, hmarkers, hdrums⟩

theorem tempo_of_compile_rush :
    Score.compile rush [] [] 4 = .ok rushed ∧
      ∃ sorted first rest, ByMeasure rush sorted ∧ rushed.tempo.entries = first :: rest ∧
        first.tick = 0 ∧ first.message = signature 4 ∧ List.Forall₂ (Says 4) sorted rest :=
  ⟨compile_rush, tempo_of_compile compile_rush⟩

/-- A score can say that a beat takes no time. -/
theorem exists_beat_of_no_time :
    Score.compile rush [] [] 4 = .ok rushed ∧
      ¬∀ e ∈ rushed.tempo.entries, ∀ micros, e.message = .tempo micros →
        1 ≤ micros ∧ micros ≤ 2 ^ 24 - 1 := by
  refine ⟨compile_rush, fun h ↦ ?_⟩
  have hbeat := h ⟨0, 0, .tempo 0⟩ (by decide) 0 rfl
  exact absurd hbeat.1 (by decide)

end SongBundle.Timing
