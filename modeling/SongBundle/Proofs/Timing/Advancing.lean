import SongBundle.Proofs.Decimal.Product
import SongBundle.Proofs.Timing.Drums

/-!
# Scores never go back in time

A part refuses an entry that comes before the one listed before it.  No song makes it do so: each
part is sorted by a key of its own before there are any ticks, and its ticks follow that key.

* `entriesFrom_ne_backwards` is about messages that are listed by tick, and `Part.Advances` says
  what their part is like.
* `beatTick?_mono` compares ticks of beats.  The key of a beat is its place among all numbers, where
  `-0` has one of its own.
* `compile_advances` puts the parts together.
-/

set_option autoImplicit false

namespace SongBundle.Timing

open Outcome

/-! ## Parts -/

/-- Time advances along the entries of a part. -/
structure Part.Advances (p : Part) : Prop where
  ascending : p.entries.Pairwise fun e e' ↦ e.tick ≤ e'.tick
  /-- An entry is as late as the distances up to it add up to. -/
  tick_eq : ∀ n e, p.entries[n]? = some e →
    e.tick = ((p.entries.take (n + 1)).map Entry.delta).sum
  delta_le : ∀ e ∈ p.entries, e.delta ≤ 2 ^ 28 - 1

section

variable {part : String} {last : Nat} {messages : List (Nat × Message)} {entries : List Entry}

/-- Messages that are listed by tick are not refused for going back. -/
theorem entriesFrom_ne_backwards (hlast : ∀ m ∈ messages, last ≤ m.1)
    (hsorted : messages.Pairwise fun m m' ↦ m.1 ≤ m'.1) (part' : String) (tick' : Nat) :
    entriesFrom part last messages ≠ .error (.backwards part' tick') := by
  induction messages generalizing last with
  | nil =>
    intro h
    cases h
  | cons m rest ih =>
    obtain ⟨tick, message⟩ := m
    obtain ⟨hle, hrest⟩ := List.pairwise_cons.1 hsorted
    rw [entriesFrom, if_neg (hlast _ List.mem_cons_self).not_gt]
    split
    · intro h
      cases h
    · exact map_ne_error (ih hle hrest)

/-- Each entry comes at its distance after the one before it. -/
theorem tick_eq_of_entriesFrom (h : entriesFrom part last messages = .ok entries) {n : Nat}
    {e : Entry} (he : entries[n]? = some e) :
    e.tick = last + ((entries.take (n + 1)).map Entry.delta).sum := by
  induction messages generalizing last entries n with
  | nil =>
    obtain rfl := Except.ok.inj h
    cases he
  | cons m rest ih =>
    obtain ⟨tick, message⟩ := m
    rw [entriesFrom] at h
    split at h
    · cases h
    split at h
    · cases h
    rename_i hforward _
    obtain ⟨later, hlater, rfl⟩ := map_eq_ok_iff.1 h
    have hnext : last + (tick - last) = tick := Nat.add_sub_cancel' (Nat.le_of_not_lt hforward)
    rw [List.take_succ_cons, List.map_cons, List.sum_cons, ← Nat.add_assoc, hnext]
    cases n with
    | zero =>
      obtain rfl := Option.some.inj he
      rfl
    | succ n => exact ih hlater he

/-- No entry comes before the one listed before it, all being counted from there. -/
theorem pairwise_of_entriesFrom (h : entriesFrom part last messages = .ok entries) :
    (∀ e ∈ entries, last ≤ e.tick) ∧ entries.Pairwise fun e e' ↦ e.tick ≤ e'.tick := by
  induction messages generalizing last entries with
  | nil =>
    obtain rfl := Except.ok.inj h
    exact ⟨nofun, .nil⟩
  | cons m rest ih =>
    obtain ⟨tick, message⟩ := m
    rw [entriesFrom] at h
    split at h
    · cases h
    split at h
    · cases h
    rename_i hforward _
    obtain ⟨later, hlater, rfl⟩ := map_eq_ok_iff.1 h
    obtain ⟨hle, hsorted⟩ := ih hlater
    have hlast : last ≤ tick := Nat.le_of_not_lt hforward
    exact ⟨List.forall_mem_cons.2 ⟨hlast, fun e he ↦ hlast.trans (hle e he)⟩,
      List.pairwise_cons.2 ⟨hle, hsorted⟩⟩

end

/-- A part of messages advances and has as many entries. -/
theorem advances_of_ofTicks {name : String} {messages : List (Nat × Message)} {p : Part}
    (h : Part.ofTicks name messages = .ok p) :
    p.Advances ∧ p.entries.length = messages.length := by
  obtain ⟨entries, hentries, rfl⟩ := map_eq_ok_iff.1 h
  refine ⟨⟨(pairwise_of_entriesFrom hentries).2, fun n e he ↦ ?_, fun e he ↦ ?_⟩, ?_⟩
  · exact (tick_eq_of_entriesFrom hentries he).trans (Nat.zero_add _)
  · exact Nat.le_pred_of_lt (delta_lt_of_entriesFrom hentries e he)
  · rw [← map_entriesFrom hentries, List.length_map]

theorem ofTicks_ne_backwards {name : String} {messages : List (Nat × Message)}
    (hsorted : messages.Pairwise fun m m' ↦ m.1 ≤ m'.1) (part : String) (tick : Nat) :
    Part.ofTicks name messages ≠ .error (.backwards part tick) :=
  map_ne_error (entriesFrom_ne_backwards (fun _ _ ↦ Nat.zero_le _) hsorted part tick)

/-! ## Tempo -/

theorem tempoMessage_ne_backwards (beatsPerMeasure : UInt32) (c : TempoChange) (part : String)
    (tick : Nat) : tempoMessage beatsPerMeasure c ≠ .error (.backwards part tick) := by
  intro h
  rw [tempoMessage] at h
  split at h
  · cases h
  · split at h <;> cases h

theorem tick_of_tempoMessage {beatsPerMeasure : UInt32} {c : TempoChange} {m : Nat × Message}
    (h : tempoMessage beatsPerMeasure c = .ok m) :
    m.1 = c.measure.toNat * beatsPerMeasure.toNat * ticksPerBeat := by
  obtain ⟨-, micros, tick, -, htick, rfl⟩ := tempoMessage_eq_ok_iff.1 h
  exact (measureTick?_eq_some_iff.1 htick).1

/-- Later measures start at later ticks. -/
theorem tempoMessage_mono {beatsPerMeasure : UInt32} {c c' : TempoChange} {m m' : Nat × Message}
    (hle : c.measure ≤ c'.measure) (h : tempoMessage beatsPerMeasure c = .ok m)
    (h' : tempoMessage beatsPerMeasure c' = .ok m') : m.1 ≤ m'.1 := by
  rw [tick_of_tempoMessage h, tick_of_tempoMessage h']
  exact Nat.mul_le_mul_right _ (Nat.mul_le_mul_right _ (UInt32.le_iff_toNat_le.1 hle))

theorem tempoPart_ne_backwards (changes : List TempoChange) (beatsPerMeasure : UInt32)
    (part : String) (tick : Nat) :
    tempoPart changes beatsPerMeasure ≠ .error (.backwards part tick) := by
  refine bind_ne_error (mapM_ne_error fun c _ ↦ ?_) fun messages hmessages ↦ ?_
  · exact tempoMessage_ne_backwards beatsPerMeasure c part tick
  · have hsorted := pairwise_of_mapM_eq_ok hmessages
      (pairwise_mergeSort_by TempoChange.measure changes) fun _ _ _ _ ↦ tempoMessage_mono
    exact ofTicks_ne_backwards (List.pairwise_cons.2 ⟨fun _ _ ↦ Nat.zero_le _, hsorted⟩) part tick

/-- The part of the tempo has an entry for the time signature and one for each change. -/
theorem advances_of_tempoPart {changes : List TempoChange} {beatsPerMeasure : UInt32} {p : Part}
    (h : tempoPart changes beatsPerMeasure = .ok p) :
    p.Advances ∧ p.entries.length = 1 + changes.length := by
  obtain ⟨messages, hmessages, h⟩ := bind_eq_ok_iff.1 h
  obtain ⟨hadvances, hlength⟩ := advances_of_ofTicks h
  rw [List.length_cons, ← (mapM_eq_ok_iff.1 hmessages).length_eq, List.length_mergeSort,
    Nat.add_comm] at hlength
  exact ⟨hadvances, hlength⟩

/-! ## Milestones -/

/-- A beat has the bits of a finite number without a sign, or it is `-0`. -/
theorem bits_of_isBeat {x : Float} (h : isBeat x = true) :
    x.toBits.toNat < 2047 * 2 ^ 52 ∨ x = -0.0 := by
  obtain ⟨hfinite, hnonneg⟩ := Bool.and_eq_true_iff.1 h
  rcases toBits_of_nonneg (of_decide_eq_true hnonneg) with hbits | hbits
  · exact .inl (lt_of_isFinite_decode hfinite hbits)
  · exact .inr (toBits_injective (UInt64.toNat.inj hbits))

theorem floatRank_of_lt {x : Float} (h : x.toBits.toNat < 2047 * 2 ^ 52) :
    floatRank x = x.toBits.toNat :=
  if_pos (Nat.lt_of_lt_of_le h (by decide))

/-- Later beats have later ticks. -/
theorem beatTick?_mono {x y : Float} (hx : isBeat x = true) (hy : isBeat y = true)
    (hxy : floatRank x ≤ floatRank y) {i j : Nat} (hi : beatTick? x = some i)
    (hj : beatTick? y = some j) : i ≤ j := by
  have hi := (Option.filter_eq_some_iff.1 hi).1
  have hj := (Option.filter_eq_some_iff.1 hj).1
  have hzero : (FloatValue.ofDouble (-0.0 * 480)).nearest? = some 0 := by decide
  have hrank : floatRank (-0.0) = -1 := by decide
  rcases bits_of_isBeat hx with hx | rfl
  · rcases bits_of_isBeat hy with hy | rfl
    · rw [floatRank_of_lt hx, floatRank_of_lt hy, Int.ofNat_le] at hxy
      exact nearest?_mul_480_mono hxy hy hi hj
    · -- `-0` comes before all other beats
      rw [floatRank_of_lt hx, hrank] at hxy
      omega
  · obtain rfl := Option.some.inj (hzero.symm.trans hi)
    exact Nat.zero_le j

theorem markerMessage_ne_backwards (e : SongEvent) (part : String) (tick : Nat) :
    markerMessage e ≠ .error (.backwards part tick) := by
  intro h
  rw [markerMessage] at h
  split at h
  · cases h
  · split at h <;> cases h

theorem beatTick?_of_markerMessage {e : SongEvent} {m : Nat × Message}
    (h : markerMessage e = .ok m) : beatTick? e.beat = some m.1 := by
  rw [markerMessage] at h
  split at h
  · cases h
  split at h
  · cases h
  · rename_i tick htick
    obtain rfl := Except.ok.inj h
    exact htick

theorem markerMessage_mono {e e' : SongEvent} {m m' : Nat × Message}
    (hle : floatRank e.beat ≤ floatRank e'.beat) (h : markerMessage e = .ok m)
    (h' : markerMessage e' = .ok m') : m.1 ≤ m'.1 :=
  beatTick?_mono (isBeat_of_markerMessage h) (isBeat_of_markerMessage h') hle
    (beatTick?_of_markerMessage h) (beatTick?_of_markerMessage h')

theorem markerPart_ne_backwards (events : List SongEvent) (part : String) (tick : Nat) :
    markerPart events ≠ .error (.backwards part tick) := by
  refine bind_ne_error (mapM_ne_error fun e _ ↦ ?_) fun messages hmessages ↦ ?_
  · exact markerMessage_ne_backwards e part tick
  · have hsorted := pairwise_of_mapM_eq_ok hmessages
      (pairwise_mergeSort_by (fun e ↦ floatRank e.beat) events) fun _ _ _ _ ↦ markerMessage_mono
    exact ofTicks_ne_backwards hsorted part tick

/-- The part of the milestones has an entry for each of them. -/
theorem advances_of_markerPart {events : List SongEvent} {p : Part}
    (h : markerPart events = .ok p) :
    p.Advances ∧ p.entries.length = events.length := by
  obtain ⟨messages, hmessages, h⟩ := bind_eq_ok_iff.1 h
  obtain ⟨hadvances, hlength⟩ := advances_of_ofTicks h
  rw [← (mapM_eq_ok_iff.1 hmessages).length_eq, List.length_mergeSort] at hlength
  exact ⟨hadvances, hlength⟩

/-! ## Drums -/

theorem drumStrokes_ne_backwards (d : DrumTrack) (part : String) (tick : Nat) :
    drumStrokes d ≠ .error (.backwards part tick) := by
  refine map_ne_error (mapM_ne_error fun hit _ ↦ ?_)
  intro h
  rw [hitStrokes] at h
  split at h <;> cases h

theorem drumPart_ne_backwards (drums : List DrumTrack) (part : String) (tick : Nat) :
    drumPart drums ≠ .error (.backwards part tick) := by
  refine bind_ne_error (mapM_ne_error fun d _ ↦ ?_) fun strokes _ ↦ ?_
  · exact drumStrokes_ne_backwards d part tick
  · refine ofTicks_ne_backwards (List.pairwise_map.2 ?_) part tick
    refine (List.pairwise_mergeSort Stroke.precedes_trans Stroke.precedes_total _).imp
      fun hprecedes ↦ ?_
    rcases Stroke.precedes_iff.1 hprecedes with hlt | ⟨heq, -⟩
    · exact hlt.le
    · exact heq.le

theorem advances_of_drumPart {drums : List DrumTrack} {p : Part} (h : drumPart drums = .ok p) :
    p.Advances := by
  obtain ⟨strokes, -, h⟩ := bind_eq_ok_iff.1 h
  exact (advances_of_ofTicks h).1

/-! ## Scores -/

/-- **Time never goes back.**  Whatever the author states, in whatever order and with whatever
numbers, no part of the score is refused for an entry that comes before another.  Where there is a
score, time advances along each of its parts, and these have an entry for the time signature and
for each change of tempo, for each milestone, and two for each hit. -/
theorem compile_advances (changes : List TempoChange) (events : List SongEvent)
    (drums : List DrumTrack) (beatsPerMeasure : UInt32) :
    (∀ part tick, Score.compile changes events drums beatsPerMeasure ≠
      .error (.backwards part tick)) ∧
    ∀ s, Score.compile changes events drums beatsPerMeasure = .ok s →
      (∀ p ∈ s.parts, p.Advances) ∧
      s.tempo.entries.length = 1 + changes.length ∧
      s.markers.entries.length = events.length ∧
      s.drums.entries.length = 2 * (drums.flatMap DrumTrack.hits).length := by
  constructor
  · intro part tick
    refine bind_ne_error (tempoPart_ne_backwards changes beatsPerMeasure part tick) fun _ _ ↦ ?_
    refine bind_ne_error (markerPart_ne_backwards events part tick) fun _ _ ↦ ?_
    exact bind_ne_error (drumPart_ne_backwards drums part tick) fun _ _ ↦ nofun
  · intro s hs
    obtain ⟨htempo, hmarkers, hdrums⟩ := Score.compile_eq_ok_iff.1 hs
    obtain ⟨hadvances₁, hlength₁⟩ := advances_of_tempoPart htempo
    obtain ⟨hadvances₂, hlength₂⟩ := advances_of_markerPart hmarkers
    refine ⟨?_, hlength₁, hlength₂, length_of_drumPart hdrums⟩
    simpa [Score.parts] using ⟨hadvances₁, hadvances₂, advances_of_drumPart hdrums⟩

/-- Milestones that are listed last to first, two of them at the two zeros. -/
def lastToFirst : List SongEvent :=
  [⟨0.5, .preview⟩, ⟨0, .freestyleStart⟩, ⟨-0.0, .musicStart⟩]

/-- A score of which nothing was listed in order. -/
def straightened : Score where
  tempo := ⟨"TEMPO",
    [⟨0, 0, .timeSignature 4 2⟩, ⟨0, 0, .tempo 500000⟩, ⟨3840, 3840, .tempo 1000000⟩]⟩
  markers := ⟨"EVENTS", [⟨0, 0, .marker .musicStart⟩, ⟨0, 0, .marker .freestyleStart⟩,
    ⟨240, 240, .marker .preview⟩]⟩
  drums := sharedBeats

theorem compile_advances_straightened :
    Score.compile [⟨2, 60⟩, ⟨0, 120⟩] lastToFirst sharedNotes 4 = .ok straightened ∧
      (∀ p ∈ straightened.parts, p.Advances) ∧ straightened.tempo.entries.length = 1 + 2 ∧
      straightened.markers.entries.length = 3 ∧ straightened.drums.entries.length = 2 * 6 := by
  have htempo : tempoPart [⟨2, 60⟩, ⟨0, 120⟩] 4 = .ok straightened.tempo := by
    have hsorted : ([⟨2, 60⟩, ⟨0, 120⟩] : List TempoChange).mergeSort
        (fun a b ↦ a.measure ≤ b.measure) = [⟨0, 120⟩, ⟨2, 60⟩] := by cbv
    have hmessages : [(⟨0, 120⟩ : TempoChange), ⟨2, 60⟩].mapM (tempoMessage 4) =
        .ok [(0, .tempo 500000), (3840, .tempo 1000000)] := rfl
    rw [tempoPart, hsorted, hmessages]
    rfl
  have hmarkers : markerPart lastToFirst = .ok straightened.markers := by
    have hranks : (lastToFirst.map fun e ↦ floatRank e.beat).Nodup := by decide
    have hsorted : lastToFirst.mergeSort (fun a b ↦ floatRank a.beat ≤ floatRank b.beat) =
        lastToFirst.reverse := by
      rw [mergeSort_by_eq_of_perm (fun e ↦ floatRank e.beat) lastToFirst.reverse_perm.symm
        fun a ha b hb ↦ List.inj_on_of_nodup_map hranks ha hb]
      exact List.mergeSort_of_pairwise (by decide)
    rw [markerPart, hsorted]
    rfl
  have hdrums : drumPart sharedNotes = .ok straightened.drums := by cbv
  have hcompile := Score.compile_eq_ok_iff.2 ⟨htempo, hmarkers, hdrums⟩
  exact ⟨hcompile, (compile_advances _ _ _ _).2 straightened hcompile⟩

end SongBundle.Timing
