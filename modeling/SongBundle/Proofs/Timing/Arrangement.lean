import Mathlib.Data.List.Nodup
import Mathlib.Data.List.Perm.Basic
import SongBundle.Proofs.Decimal.Rounding
import SongBundle.Proofs.Sorting
import SongBundle.Proofs.Timing.Score

/-!
# Scores do not depend on how things are listed

A score comes out the same if changes of tempo, milestones and the hits of each drum are listed in
another order, as long as no two changes stand at one measure and no two milestones at one beat.

* `tempoPart_congr`: a measure determines the change.
* `markerPart_eq_ok_iff_of_perm`: the order by beat is one by the bits of the numbers
  (`floatRank_inj`), so a beat determines the milestone.
* `drumPart_eq_ok_iff_of_rearranged`: strokes of several drums may be tied.  Those of one drum are
  equal if they are, and the drums keep their order.
-/

set_option autoImplicit false

namespace SongBundle

/-- The order of all numbers tells any two of them apart. -/
theorem floatRank_inj {x y : Float} (h : floatRank x = floatRank y) : x = y := by
  refine toBits_injective ?_
  rw [← UInt64.toNat_inj]
  simp only [floatRank] at h
  split at h <;> split at h <;> omega

/-- One drum with the same hits, maybe listed in another order. -/
structure DrumTrack.Rearranged (d d' : DrumTrack) : Prop where
  sound_eq : d'.sound = d.sound
  hits_perm : d.hits.Perm d'.hits

theorem DrumTrack.Rearranged.symm {d d' : DrumTrack} (h : d.Rearranged d') : d'.Rearranged d :=
  ⟨h.sound_eq.symm, h.hits_perm.symm⟩

namespace Timing

open Outcome

/-! ## Tempo -/

theorem tempoPart_congr {changes changes' : List TempoChange} (hperm : changes.Perm changes')
    (h : (changes.map TempoChange.measure).Nodup) (beatsPerMeasure : UInt32) :
    tempoPart changes beatsPerMeasure = tempoPart changes' beatsPerMeasure := by
  have hsorted := mergeSort_by_eq_of_perm TempoChange.measure hperm
    fun a ha b hb ↦ List.inj_on_of_nodup_map h ha hb
  rw [tempoPart, tempoPart, hsorted]

/-! ## Milestones -/

theorem isBeat_of_markerMessage {e : SongEvent} {m : Nat × Message} (h : markerMessage e = .ok m) :
    isBeat e.beat = true := by
  rw [markerMessage] at h
  split at h
  · cases h
  · rename_i hbeat
    simpa using hbeat

/-- Milestones that make a part are at beats of the song. -/
theorem isBeat_of_markerPart {events : List SongEvent} {p : Part} (h : markerPart events = .ok p) :
    ∀ e ∈ events, isBeat e.beat = true := by
  obtain ⟨messages, hmessages, -⟩ := bind_eq_ok_iff.1 h
  have hall := (mapM_eq_ok_iff.1 hmessages).imp fun _ _ hm ↦
    And.intro (isBeat_of_markerMessage hm) trivial
  intro e he
  exact ((List.forall₂_and_left _ _).1 hall).1 e (List.mem_mergeSort.2 he)

theorem markerPart_congr {events events' : List SongEvent} (hperm : events.Perm events')
    (h : (events.map SongEvent.beat).Nodup) : markerPart events = markerPart events' := by
  have hsorted := mergeSort_by_eq_of_perm (fun e ↦ floatRank e.beat) hperm
    fun a ha b hb hrank ↦ List.inj_on_of_nodup_map h ha hb (floatRank_inj hrank)
  rw [markerPart, markerPart, hsorted]

/-- Milestones make the same part in any order if no two of them are at one beat of the song. -/
theorem markerPart_eq_ok_iff_of_perm {events events' : List SongEvent}
    (hperm : events.Perm events')
    (h : ((events.map SongEvent.beat).filter isBeat).Nodup) {p : Part} :
    markerPart events = .ok p ↔ markerPart events' = .ok p := by
  have hcongr (hall : ∀ e ∈ events, isBeat e.beat = true) :
      markerPart events = markerPart events' := by
    refine markerPart_congr hperm ?_
    rwa [List.filter_eq_self.2 (List.forall_mem_map.2 hall)] at h
  constructor
  · exact fun hp ↦ hcongr (isBeat_of_markerPart hp) ▸ hp
  · refine fun hp ↦ (hcongr fun e he ↦ ?_).trans hp
    exact isBeat_of_markerPart hp e (hperm.mem_iff.1 he)

/-! ## Drums -/

theorem Stroke.precedes_iff {a b : Stroke} :
    a.precedes b = true ↔
      a.tick < b.tick ∨ a.tick = b.tick ∧ (a.stops = false ∨ b.stops = true) := by
  simp [precedes]

theorem Stroke.precedes_trans (a b c : Stroke) (hab : a.precedes b = true)
    (hbc : b.precedes c = true) : a.precedes c = true := by
  rw [precedes_iff] at *
  grind

theorem Stroke.precedes_total (a b : Stroke) : (a.precedes b || b.precedes a) = true := by
  rw [Bool.or_eq_true, precedes_iff, precedes_iff]
  grind

theorem Stroke.tied_precedes_iff {a b : Stroke} :
    tied precedes a b = true ↔ a.tick = b.tick ∧ a.stops = b.stops := by
  rw [tied_iff, precedes_iff, precedes_iff]
  grind

/-- Strokes with one note are listed alike up to their order if they are tied, being equal then. -/
theorem filter_tied_eq_of_perm {strokes strokes' : List Stroke} {key : Nat}
    (hperm : strokes.Perm strokes') (hkey : ∀ s ∈ strokes, s.key = key) (a : Stroke) :
    strokes.filter (tied Stroke.precedes a) = strokes'.filter (tied Stroke.precedes a) := by
  have hsame : strokes.filter (tied Stroke.precedes a) =
      List.replicate (strokes.filter (tied Stroke.precedes a)).length ⟨a.tick, key, a.stops⟩ := by
    refine List.eq_replicate_of_mem fun s hs ↦ ?_
    obtain ⟨hmem, htied⟩ := List.mem_filter.1 hs
    obtain ⟨htick, hstops⟩ := Stroke.tied_precedes_iff.1 htied
    rw [htick, hstops, ← hkey s hmem]
  have hfilter := (hperm.filter (tied Stroke.precedes a)).symm
  rw [hsame] at hfilter ⊢
  exact (List.perm_replicate.1 hfilter).symm

/-- Strokes are sorted alike if those of each drum are the same up to their order. -/
theorem mergeSort_flatten_eq {perDrum perDrum' : List (List Stroke)}
    (h : List.Forall₂ (fun ss ss' ↦ ss.Perm ss' ∧ ∃ key, ∀ s ∈ ss, s.key = key) perDrum perDrum') :
    perDrum.flatten.mergeSort Stroke.precedes = perDrum'.flatten.mergeSort Stroke.precedes := by
  refine mergeSort_congr Stroke.precedes_trans Stroke.precedes_total fun a ↦ ?_
  rw [List.filter_flatten, List.filter_flatten]
  refine congrArg List.flatten ?_
  rw [← List.forall₂_eq_eq_eq, List.forall₂_map_left_iff, List.forall₂_map_right_iff]
  exact h.imp fun _ _ ⟨hperm, _, hkey⟩ ↦ filter_tied_eq_of_perm hperm hkey a

theorem exists_drumStrokes_of_rearranged {d d' : DrumTrack} {strokes : List Stroke}
    (h : d.Rearranged d') (hstrokes : drumStrokes d = .ok strokes) :
    ∃ strokes', drumStrokes d' = .ok strokes' ∧ strokes.Perm strokes' := by
  obtain ⟨perHit, hhits, rfl⟩ := map_eq_ok_iff.1 hstrokes
  rw [mapM_eq_ok_iff, ← h.sound_eq] at hhits
  obtain ⟨perHit', hhits', hperm⟩ := List.perm_comp_forall₂ h.hits_perm.symm hhits
  exact ⟨perHit'.flatten, map_eq_ok_iff.2 ⟨perHit', mapM_eq_ok_iff.2 hhits', rfl⟩,
    hperm.flatten.symm⟩

theorem drumPart_of_rearranged {drums drums' : List DrumTrack} {p : Part}
    (h : List.Forall₂ DrumTrack.Rearranged drums drums') (hp : drumPart drums = .ok p) :
    drumPart drums' = .ok p := by
  obtain ⟨perDrum, hperDrum, hp⟩ := bind_eq_ok_iff.1 hp
  have hdrum : List.Forall₂ (fun d' ss ↦ ∃ ss', drumStrokes d' = .ok ss' ∧ ss.Perm ss' ∧
      ∃ key, ∀ s ∈ ss, s.key = key) drums' perDrum := by
    refine (forall₂_comp h.flip (mapM_eq_ok_iff.1 hperDrum)).imp fun d' ss ⟨d, hd, hss⟩ ↦ ?_
    obtain ⟨ss', hss', hperm⟩ := exists_drumStrokes_of_rearranged hd hss
    exact ⟨ss', hss', hperm, drumNote d.sound, key_of_drumStrokes hss⟩
  obtain ⟨perDrum', hperDrum', hperm⟩ := exists_forall₂_of_forall₂ hdrum
  refine bind_eq_ok_iff.2 ⟨perDrum', mapM_eq_ok_iff.2 hperDrum', ?_⟩
  rw [← mergeSort_flatten_eq hperm]
  exact hp

theorem drumPart_eq_ok_iff_of_rearranged {drums drums' : List DrumTrack}
    (h : List.Forall₂ DrumTrack.Rearranged drums drums') {p : Part} :
    drumPart drums = .ok p ↔ drumPart drums' = .ok p :=
  ⟨drumPart_of_rearranged h, drumPart_of_rearranged (h.flip.imp fun _ _ hd ↦ hd.symm)⟩

end Timing

end SongBundle
