import Mathlib
import SongBundle.Proofs.Timing.MidiReader
import SongBundle.Proofs.Timing.Score
import SongBundle.Timing.MidiFile

/-!
# What is written can be read

A score that is written as a MIDI file is read back as it was: `read_midi` says so of every compiled
score, and that no number of it is too great for its field.

* `readQuantity_quantity` and `readNumber_bigEndian` are about numbers.
* `readEvent_bytesAfter` is about one message, whatever status byte it may leave out, and
  `readAll_entriesBytes` about a run of them.
* `readTrack_content` and `readChunk_chunk` are about whole tracks.
-/

set_option autoImplicit false

namespace SongBundle.Timing

namespace Midi

/-! ## Numbers -/

theorem number_append (bytes : List UInt8) (b : UInt8) :
    number (bytes ++ [b]) = 256 * number bytes + b.toNat := by
  rw [number, List.foldl_append]
  rfl

theorem number_bigEndian {count n : Nat} (h : n < 256 ^ count) : number (bigEndian count n) = n := by
  induction count generalizing n with
  | zero =>
    rw [Nat.pow_zero, Nat.lt_one_iff] at h
    exact h.symm
  | succ count ih =>
    have hhigh : n / 256 < 256 ^ count := by
      rw [Nat.div_lt_iff_lt_mul (by omega), ← Nat.pow_succ]
      exact h
    rw [bigEndian, number_append, ih hhigh, UInt8.toNat_ofNat']
    omega

theorem readBytes_append {count : Nat} {bytes : List UInt8} (rest : List UInt8)
    (h : bytes.length = count) : readBytes count (bytes ++ rest) = some (bytes, rest) := by
  subst h
  rw [readBytes, if_pos (by simp), List.take_left, List.drop_left]

theorem readNumber_bigEndian {count n : Nat} (rest : List UInt8) (h : n < 256 ^ count) :
    readNumber count (bigEndian count n ++ rest) = some (n, rest) := by
  rw [readNumber, readBytes_append rest (length_bigEndian count n), Option.map_some,
    number_bigEndian h]

/-- The leading groups of a number are read one by one. -/
theorem readGroups_leadingGroups {count n : Nat} (more : Nat) (rest : List UInt8)
    (h : n < 128 ^ count) :
    readGroups (count + more) 0 (leadingGroups count n ++ rest) =
      readGroups (count + more - (leadingGroups count n).length) n rest := by
  induction count generalizing n more rest with
  | zero =>
    obtain rfl : n = 0 := by simpa using h
    rfl
  | succ count ih =>
    rw [leadingGroups]
    split
    · rename_i hn
      rw [hn]
      rfl
    · have hhigh : n / 128 < 128 ^ count := by
        rw [Nat.div_lt_iff_lt_mul (by omega), ← Nat.pow_succ]
        exact h
      have hlength := length_leadingGroups_le count (n / 128)
      have hgroup : (UInt8.ofNat (128 + n % 128)).toNat = 128 + n % 128 := by
        rw [UInt8.toNat_ofNat']
        omega
      rw [List.append_assoc, List.singleton_append, Nat.add_right_comm, Nat.add_assoc, ih _ _ hhigh,
        List.length_append, List.length_singleton,
        show count + (more + 1) - (leadingGroups count (n / 128)).length =
          count + more - (leadingGroups count (n / 128)).length + 1 by omega,
        readGroups, hgroup, if_neg (by omega), Nat.add_sub_cancel_left, Nat.div_add_mod]
      congr 1
      omega

theorem readQuantity_quantity {n : Nat} (rest : List UInt8) (h : n < 2 ^ 28) :
    readQuantity (quantity n ++ rest) = some (n, rest) := by
  have hlength := length_leadingGroups_le 3 (n / 128)
  have hgroup : (UInt8.ofNat (n % 128)).toNat = n % 128 := by
    rw [UInt8.toNat_ofNat']
    omega
  rw [readQuantity, quantity, List.append_assoc, List.singleton_append,
    readGroups_leadingGroups 1 _ (by omega),
    show 3 + 1 - (leadingGroups 3 (n / 128)).length =
      3 - (leadingGroups 3 (n / 128)).length + 1 by omega,
    readGroups, hgroup, if_pos (by omega), Nat.div_add_mod]

theorem readCounted_quantity {data : List UInt8} (rest : List UInt8) (h : data.length < 2 ^ 28) :
    readCounted (quantity data.length ++ (data ++ rest)) = some (data, rest) := by
  rw [readCounted, readQuantity_quantity _ h]
  exact readBytes_append rest rfl

/-! ## Reading again and again -/

section

variable {σ α : Type} {read : σ → Reader (α × σ)} {s s' : σ}

theorem readAll_nil (read : σ → Reader (α × σ)) (s : σ) : readAll read s [] = some [] := by
  rw [readAll, if_pos rfl]

/-- What is read first comes first, if it takes a byte at least. -/
theorem readAll_append {a : α} {bytes rest : List UInt8}
    (h : read s (bytes ++ rest) = some ((a, s'), rest)) (hne : bytes ≠ []) :
    readAll read s (bytes ++ rest) = (readAll read s' rest).map (a :: ·) := by
  have hpos := List.length_pos_iff.2 hne
  rw [readAll, if_neg (by simp [hne]), h]
  exact if_pos (by rw [List.length_append]; omega)

end

/-! ## One event -/

theorem readEvent_metaMessage (running : Option UInt8) (type : UInt8) {data : List UInt8}
    (rest : List UInt8) (h : data.length < 2 ^ 28) :
    readEvent running (metaMessage type data ++ rest) = some ((songEvent type data, none), rest) := by
  rw [metaMessage, List.append_assoc, List.cons_append, List.cons_append, readEvent.eq_def]
  dsimp only
  rw [if_neg (by decide), if_neg (by decide), if_pos (by decide)]
  rw [readCounted_quantity rest h]
  rfl

theorem readChannelEvent_append {status : UInt8} {data : List UInt8} (rest : List UInt8)
    (hlength : data.length = dataLength status) (hdata : ∀ b ∈ data, b.toNat < 128) :
    readChannelEvent status (data ++ rest) =
      some ((channelEvent status data, some status), rest) := by
  rw [readChannelEvent, readBytes_append rest hlength]
  exact if_pos (List.all_eq_true.2 fun b hb ↦ decide_eq_true (hdata b hb))

/-- An event to a channel may leave out a status byte that is running. -/
theorem readEvent_channel (running : Option UInt8) {status : UInt8} {data : List UInt8}
    (rest : List UInt8) (hlow : 0x80 ≤ status.toNat) (hhigh : status.toNat < 0xf0)
    (hlength : data.length = dataLength status) (hdata : ∀ b ∈ data, b.toNat < 128) :
    readEvent running ((if running = some status then data else status :: data) ++ rest) =
      some ((channelEvent status data, some status), rest) := by
  split
  · rename_i hrunning
    have hread := readChannelEvent_append rest hlength hdata
    cases data with
    | nil =>
      rw [List.length_nil, dataLength] at hlength
      split at hlength <;> omega
    | cons b data =>
      rw [List.cons_append] at hread ⊢
      rw [readEvent.eq_def]
      dsimp only
      rw [if_pos (hdata b List.mem_cons_self), hrunning]
      exact hread
  · rw [List.cons_append, readEvent.eq_def]
    dsimp only
    rw [if_neg (by omega), if_pos hhigh]
    exact readChannelEvent_append rest hlength hdata

end Midi

/-! ## Messages -/

namespace Message

/-- What a player takes a message for. -/
def event : Message → Midi.Event
  | timeSignature numerator halvings => .timeSignature numerator halvings 24 8
  | tempo micros => .tempo micros
  | marker milestone => .text milestone.token
  | noteOn key velocity => .noteOn 9 key velocity
  | noteOff key => .noteOff 9 key 0

end Message

open Midi

theorem textOf_token (m : Milestone) : textOf (textBytes m.token) = m.token := by
  cases m <;> decide +kernel

theorem length_token_lt (m : Milestone) : (textBytes m.token).length < 2 ^ 28 := by
  cases m <;> decide +kernel

/-- A message is read as what it says, whatever the status byte that it may leave out. -/
theorem readEvent_bytesAfter (running : Option UInt8) {m : Message} (rest : List UInt8)
    (h : m.Fits) :
    readEvent running (m.bytesAfter running ++ rest) = some ((m.event, m.status?), rest) := by
  cases m with
  | timeSignature numerator halvings =>
    have hevent : songEvent 0x58 [UInt8.ofNat numerator, UInt8.ofNat halvings, 24, 8] =
        .timeSignature numerator halvings 24 8 := by
      refine (show _ = Event.timeSignature (UInt8.ofNat numerator).toNat
        (UInt8.ofNat halvings).toNat 24 8 from rfl).trans ?_
      rw [UInt8.toNat_ofNat', UInt8.toNat_ofNat', Nat.mod_eq_of_lt h.1, Nat.mod_eq_of_lt h.2]
    exact (readEvent_metaMessage running 0x58 rest (by simp)).trans (by rw [hevent]; rfl)
  | tempo micros =>
    have hevent : songEvent 0x51 (bigEndian 3 micros) = .tempo micros := by
      refine (show _ = Event.tempo (number (bigEndian 3 micros)) from rfl).trans ?_
      rw [number_bigEndian h]
    exact (readEvent_metaMessage running 0x51 rest (by simp)).trans (by rw [hevent]; rfl)
  | marker milestone =>
    have hevent : songEvent 0x01 (textBytes milestone.token) = .text milestone.token :=
      congrArg Event.text (textOf_token milestone)
    exact (readEvent_metaMessage running 0x01 rest (length_token_lt milestone)).trans
      (by rw [hevent]; rfl)
  | noteOn key velocity =>
    have hkey : (UInt8.ofNat key).toNat = key := by
      rw [UInt8.toNat_ofNat', Nat.mod_eq_of_lt (Nat.lt_trans h.1 (by decide))]
    have hvelocity : (UInt8.ofNat velocity).toNat = velocity := by
      rw [UInt8.toNat_ofNat', Nat.mod_eq_of_lt (Nat.lt_trans h.2 (by decide))]
    have hevent : channelEvent 0x99 [UInt8.ofNat key, UInt8.ofNat velocity] =
        .noteOn 9 key velocity := by
      refine (show _ = Event.noteOn 9 (UInt8.ofNat key).toNat (UInt8.ofNat velocity).toNat
        from rfl).trans ?_
      rw [hkey, hvelocity]
    have hdata : ∀ b ∈ [UInt8.ofNat key, UInt8.ofNat velocity], b.toNat < 128 := by
      simpa [hkey, hvelocity, Message.Fits] using h
    exact (readEvent_channel running rest (by decide) (by decide) rfl hdata).trans
      (by rw [hevent]; rfl)
  | noteOff key =>
    have hkey : (UInt8.ofNat key).toNat = key := by
      rw [UInt8.toNat_ofNat', Nat.mod_eq_of_lt (Nat.lt_trans h (by decide))]
    have hevent : channelEvent 0x89 [UInt8.ofNat key, 0] = .noteOff 9 key 0 := by
      refine (show _ = Event.noteOff 9 (UInt8.ofNat key).toNat 0 from rfl).trans ?_
      rw [hkey]
    have hdata : ∀ b ∈ [UInt8.ofNat key, 0], b.toNat < 128 := by
      simpa [hkey, Message.Fits] using h
    exact (readEvent_channel running rest (by decide) (by decide) rfl hdata).trans
      (by rw [hevent]; rfl)

/-! ## Tracks -/

/-- The track of a part: its name, its entries and an end mark. -/
def Part.track (p : Part) : Track :=
  (0, .trackName p.name) :: p.entries.map (fun e ↦ (e.delta, e.message.event))
    ++ [(0, .endOfTrack)]

/-- The entries of a part fit, and so does its name, which is made of plain letters. -/
structure Part.Fits (p : Part) : Prop where
  name : textOf (textBytes p.name) = p.name
  length_name : (textBytes p.name).length < 2 ^ 28
  entries : ∀ e ∈ p.entries, e.Fits

theorem readTimedEvent_append {running running' : Option UInt8} {delta : Nat} {bytes : List UInt8}
    {event : Event} {rest : List UInt8} (hdelta : delta < 2 ^ 28)
    (h : readEvent running (bytes ++ rest) = some ((event, running'), rest)) :
    readTimedEvent running (quantity delta ++ bytes ++ rest) =
      some (((delta, event), running'), rest) := by
  rw [readTimedEvent, List.append_assoc, readQuantity_quantity _ hdelta]
  dsimp only [Option.bind_eq_bind, Option.bind_some]
  rw [h]
  rfl

theorem quantity_append_ne_nil (n : Nat) (bytes : List UInt8) : quantity n ++ bytes ≠ [] := by
  intro h
  have hpos := (length_quantity n).1
  rw [(List.append_eq_nil_iff.1 h).1] at hpos
  exact absurd hpos (Nat.lt_irrefl 0)

/-- Entries that fit are read one by one, and what follows them after that. -/
theorem readAll_entriesBytes (running : Option UInt8) {entries : List Entry} (rest : List UInt8)
    (h : ∀ e ∈ entries, e.Fits) :
    ∃ running', readAll readTimedEvent running (entriesBytes running entries ++ rest) =
      (readAll readTimedEvent running' rest).map
        (entries.map (fun e ↦ (e.delta, e.message.event)) ++ ·) := by
  induction entries generalizing running with
  | nil => exact ⟨running, by simp [entriesBytes]⟩
  | cons e entries ih =>
    have he := h e List.mem_cons_self
    obtain ⟨running', hentries⟩ := ih e.message.status? fun e he ↦ h e (List.mem_cons_of_mem _ he)
    have hread := readTimedEvent_append he.delta
      (readEvent_bytesAfter running (entriesBytes e.message.status? entries ++ rest) he.message)
    refine ⟨running', ?_⟩
    rw [entriesBytes, ← List.append_assoc, List.append_assoc _ _ rest,
      readAll_append hread (quantity_append_ne_nil _ _), hentries, Option.map_map]
    rfl

/-- **The content of a track is read as its name, its entries and an end mark.** -/
theorem readTrack_content {p : Part} (h : p.Fits) : readTrack p.content = some p.track := by
  have hstart : readTimedEvent none (quantity 0 ++ metaMessage 0x03 (textBytes p.name) ++
      (entriesBytes none p.entries ++ (quantity 0 ++ metaMessage 0x2f []))) =
        some (((0, .trackName p.name), none),
          entriesBytes none p.entries ++ (quantity 0 ++ metaMessage 0x2f [])) := by
    refine readTimedEvent_append (by decide) ?_
    refine (readEvent_metaMessage none 0x03 _ h.length_name).trans ?_
    rw [show songEvent 0x03 (textBytes p.name) = .trackName (textOf (textBytes p.name)) from rfl,
      h.name]
  have hend : ∀ running, readTimedEvent running (quantity 0 ++ metaMessage 0x2f [] ++ []) =
      some (((0, .endOfTrack), none), []) := fun running ↦
    readTimedEvent_append (by decide) (readEvent_metaMessage running 0x2f [] (by decide))
  have hcontent : p.content = quantity 0 ++ metaMessage 0x03 (textBytes p.name) ++
      (entriesBytes none p.entries ++ (quantity 0 ++ metaMessage 0x2f [])) :=
    List.append_assoc _ _ _
  obtain ⟨running, hentries⟩ :=
    readAll_entriesBytes none (quantity 0 ++ metaMessage 0x2f []) h.entries
  rw [readTrack, hcontent, readAll_append hstart (quantity_append_ne_nil _ _), hentries,
    ← List.append_nil (quantity 0 ++ metaMessage 0x2f []),
    readAll_append (hend running) (quantity_append_ne_nil _ _), readAll_nil]
  rfl

/-! ## Files -/

/-- A chunk is read as its type and its content. -/
theorem readChunk_chunk {type : String} {content : List UInt8} (rest : List UInt8)
    (htype : textOf (textBytes type) = type) (hfour : (textBytes type).length = 4)
    (hlength : content.length < 2 ^ 32) :
    readChunk (chunk type content ++ rest) = some ((type, content), rest) := by
  rw [chunk, List.append_assoc, List.append_assoc, readChunk, readBytes_append _ hfour]
  dsimp only [Option.bind_eq_bind, Option.bind_some]
  rw [readNumber_bigEndian _ hlength]
  dsimp only [Option.bind_eq_bind, Option.bind_some]
  rw [readBytes_append _ rfl, htype]
  rfl

theorem readChunks_append {type : String} {content : List UInt8} (rest : List UInt8)
    (htype : textOf (textBytes type) = type) (hfour : (textBytes type).length = 4)
    (hlength : content.length < 2 ^ 32) :
    readChunks (chunk type content ++ rest) = (readChunks rest).map ((type, content) :: ·) := by
  refine readAll_append ?_ fun hnil ↦ ?_
  · rw [readChunk_chunk rest htype hfour hlength]
    rfl
  · have := congrArg List.length hnil
    simp [chunk] at this

theorem readChunks_tracks {parts : List Part} (h : ∀ p ∈ parts, p.content.length < 2 ^ 32) :
    readChunks (parts.flatMap fun p ↦ chunk "MTrk" p.content) =
      some (parts.map fun p ↦ ("MTrk", p.content)) := by
  induction parts with
  | nil => exact readAll_nil _ ()
  | cons p parts ih =>
    rw [List.flatMap_cons, readChunks_append _ (by decide +kernel) (by decide +kernel)
      (h p List.mem_cons_self), ih fun p hp ↦ h p (List.mem_cons_of_mem _ hp)]
    rfl

theorem readHeader_headerContent {tracks : Nat} (h : tracks < 2 ^ 16) :
    readHeader (headerContent tracks) = some (1, tracks, 480) := by
  rw [headerContent, List.append_assoc, readHeader, readNumber_bigEndian _ (by decide)]
  dsimp only [Option.bind_eq_bind, Option.bind_some]
  rw [readNumber_bigEndian _ h]
  dsimp only [Option.bind_eq_bind, Option.bind_some]
  rw [← List.append_nil (bigEndian 2 ticksPerBeat), readNumber_bigEndian _ (by decide)]
  rfl

theorem mapM_readTrack {parts : List Part} (h : ∀ p ∈ parts, p.Fits) :
    (parts.map fun p ↦ ("MTrk", p.content)).mapM (fun c : String × List UInt8 ↦ readTrack c.2) =
      some (parts.map Part.track) := by
  induction parts with
  | nil => rfl
  | cons p parts ih =>
    rw [List.map_cons, List.mapM_cons, readTrack_content (h p List.mem_cons_self),
      ih fun p hp ↦ h p (List.mem_cons_of_mem _ hp)]
    rfl

/-- A score that fits is read as its parts. -/
theorem read_midi_of_fits {s : Score} (h : ∀ p ∈ s.parts, p.Fits)
    (hlength : ∀ p ∈ s.parts, p.content.length < 2 ^ 32) :
    Midi.read s.midi = some ⟨1, 480, s.parts.map Part.track⟩ := by
  have hchunks : readChunks s.midi = some (("MThd", headerContent s.parts.length) ::
      s.parts.map fun p ↦ ("MTrk", p.content)) := by
    rw [Score.midi, readChunks_append _ (by decide +kernel) (by decide +kernel)
      (by simp [headerContent]), readChunks_tracks hlength]
    rfl
  have htracks : (s.parts.map fun p ↦ ("MTrk", p.content)).filter (fun c ↦ c.1 = "MTrk") =
      s.parts.map fun p ↦ ("MTrk", p.content) :=
    List.filter_eq_self.2 fun c hc ↦ by
      obtain ⟨p, -, rfl⟩ := List.mem_map.1 hc
      rfl
  have hcount : s.parts.length = 3 := rfl
  rw [Midi.read, hchunks]
  dsimp only
  rw [if_pos rfl, readHeader_headerContent (by omega), htracks]
  dsimp only [Option.bind_eq_bind, Option.bind_some]
  rw [mapM_readTrack h]
  dsimp only [Option.bind_some]
  exact if_pos (List.length_map _)

/-- **A compiled score is read back as it was compiled**: a MIDI file of three tracks that run side
by side, with 480 ticks to a beat, each of them named and closed by an end mark, and between these
with the entries of its part.  No distance, tempo, key or velocity is too great for its field. -/
theorem read_midi {changes : List TempoChange} {events : List SongEvent} {drums : List DrumTrack}
    {beatsPerMeasure : UInt32} {s : Score}
    (h : Score.compile changes events drums beatsPerMeasure = .ok s)
    (hlength : ∀ p ∈ s.parts, p.content.length < 2 ^ 32) :
    Midi.read s.midi = some ⟨1, 480, [s.tempo.track, s.markers.track, s.drums.track]⟩ ∧
      s.parts.map Part.name = ["TEMPO", "EVENTS", "DRUMS"] ∧
      ∀ p ∈ s.parts, ∀ e ∈ p.entries, e.Fits := by
  obtain ⟨hnames, hfits⟩ := fits_of_compile h
  refine ⟨read_midi_of_fits (fun p hp ↦ ?_) hlength, hnames, hfits⟩
  have hname : p.name ∈ ["TEMPO", "EVENTS", "DRUMS"] := hnames ▸ List.mem_map_of_mem hp
  have hletters : ∀ name ∈ ["TEMPO", "EVENTS", "DRUMS"],
      textOf (textBytes name) = name ∧ (textBytes name).length < 2 ^ 28 := by decide +kernel
  exact ⟨(hletters p.name hname).1, (hletters p.name hname).2, hfits p hp⟩

/-- A score with a distance of three bytes and with notes that leave out their status bytes. -/
def kit : Score where
  tempo := ⟨"TEMPO", [⟨0, 0, .timeSignature 4 2⟩, ⟨1920, 1920, .tempo 500000⟩]⟩
  markers := ⟨"EVENTS", [⟨240, 240, .marker .musicStart⟩]⟩
  drums := ⟨"DRUMS", [⟨0, 0, .noteOn 36 100⟩, ⟨0, 0, .noteOn 36 100⟩, ⟨240, 240, .noteOff 36⟩,
    ⟨240, 0, .noteOff 36⟩, ⟨72000, 71760, .noteOn 60 100⟩, ⟨72240, 240, .noteOff 60⟩]⟩

theorem read_midi_kit :
    Score.compile [⟨1, 120⟩] [⟨0.5, .musicStart⟩] [⟨"kick", [1, 0]⟩, ⟨"cowbell", [300]⟩] 4 =
        .ok kit ∧
      (∀ p ∈ kit.parts, p.content.length < 2 ^ 32) ∧
      Midi.read kit.midi = some ⟨1, 480, [kit.tempo.track, kit.markers.track, kit.drums.track]⟩ := by
  have htempo : tempoPart [⟨1, 120⟩] 4 = .ok kit.tempo := by
    have hpositive : isPositive 120 = true := by decide +kernel
    have hmicros : beatMicros? 120 = some 500000 := by decide +kernel
    have htick : measureTick? 4 1 = some 1920 := by decide
    have hmessage : tempoMessage 4 ⟨1, 120⟩ = .ok (1920, .tempo 500000) := by
      simp [tempoMessage, hpositive, hmicros, htick]
    rw [tempoPart, List.mergeSort_singleton, List.mapM_cons, hmessage]
    rfl
  have hmarkers : markerPart [⟨0.5, .musicStart⟩] = .ok kit.markers := by
    rw [markerPart, List.mergeSort_singleton]
    rfl
  have hdrums : drumPart [⟨"kick", [1, 0]⟩, ⟨"cowbell", [300]⟩] = .ok kit.drums := by cbv
  have hcompile : Score.compile [⟨1, 120⟩] [⟨0.5, .musicStart⟩]
      [⟨"kick", [1, 0]⟩, ⟨"cowbell", [300]⟩] 4 = .ok kit := by
    rw [Score.compile, htempo, hmarkers, hdrums]
    rfl
  have hlength : ∀ p ∈ kit.parts, p.content.length < 2 ^ 32 := by decide +kernel
  exact ⟨hcompile, hlength, (read_midi hcompile hlength).1⟩

end SongBundle.Timing
