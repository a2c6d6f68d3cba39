import SongBundle.Timing.Basic

/-!
# The timing of a song in ticks

A `Score` has three parts that run side by side: the tempo, the milestones and the drums.  A beat has
480 ticks, and every `Entry` of a part stands at a tick and knows how many ticks passed since the
entry before it.

* `Part.ofTicks` measures those distances.
* `Score.compile` turns what the author stated into a score, or reports a `Timing.Fault`.
-/

set_option autoImplicit false

namespace SongBundle.Timing

/-- The ticks of a beat. -/
def ticksPerBeat : Nat := 480

/-- How many ticks a drum sounds. -/
def drumGate : Nat := ticksPerBeat / 2

/-- How hard drums are hit. -/
def drumVelocity : Nat := 100

/-- The number of ticks that can be told apart. -/
def tickLimit : Nat := 1 <<< 32

/-- The number of ticks that two entries can be apart. -/
def deltaLimit : Nat := 1 <<< 28

/-- The number of microseconds that a beat can take. -/
def microsLimit : Nat := 1 <<< 24

/-- What an entry of a score says. -/
inductive Message where
  /-- A measure has so many notes, whole notes being halved so often. -/
  | timeSignature (numerator halvings : Nat)
  /-- The length of a beat. -/
  | tempo (micros : Nat)
  | marker (milestone : Milestone)
  | noteOn (key velocity : Nat)
  | noteOff (key : Nat)
deriving DecidableEq, Repr

/-- A message at a tick. -/
structure Entry where
  tick : Nat
  /-- The ticks since the entry before it. -/
  delta : Nat
  message : Message
deriving DecidableEq, Repr

/-- One line of a score. -/
structure Part where
  name : String
  entries : List Entry
deriving DecidableEq, Repr

/-- The timing of a song. -/
structure Score where
  tempo : Part
  markers : Part
  drums : Part
deriving DecidableEq, Repr

/-- The parts of a score in order. -/
def Score.parts (s : Score) : List Part := [s.tempo, s.markers, s.drums]

/-! ## Faults -/

/-- What is wrong with the timing of a song. -/
inductive Fault where
  /-- A tempo is no positive number. -/
  | invalidTempo (measure : UInt32) (bpm : Float)
  /-- A beat takes too long. -/
  | slowTempo (measure : UInt32) (bpm : Float)
  /-- A tempo changes beyond the last tick. -/
  | lateTempo (measure : UInt32)
  /-- A milestone is at no beat of the song. -/
  | invalidBeat (milestone : Milestone) (beat : Float)
  /-- A milestone lies beyond the last tick. -/
  | lateBeat (milestone : Milestone) (beat : Float)
  /-- A drum is hit beyond the last tick. -/
  | lateHit (sound : String) (hit : UInt32)
  /-- An entry of a part comes before the one listed before it. -/
  | backwards (part : String) (tick : Nat)
  /-- Two entries of a part are too far apart. -/
  | farApart (part : String) (delta : Nat)

/-- Messages write a number out in full and show no point after a whole one. -/
def messageStyle : Style where
  tie := .up
  plain _ := true
  wholeEnding := ""
  undefined := "NaN"
  infinite := "inf"

/-- A number in messages. -/
def numberText (x : Float) : String := messageStyle.write .double (.ofDouble x)

/-- The report on a fault. -/
def Fault.report : Fault → BuildError
  | invalidTempo measure bpm =>
    .atMeasure .timing measure s!"invalid tempo {numberText bpm} bpm"
  | slowTempo measure bpm =>
    .atMeasure .timing measure s!"tempo {numberText bpm} bpm is too slow to encode"
  | lateTempo measure => .atMeasure .timing measure "tempo change is out of range"
  | invalidBeat milestone beat =>
    .validation .timing none s!"{milestone.text} event at invalid beat {numberText beat}"
  | lateBeat milestone beat =>
    .validation .timing none s!"{milestone.text} event at beat {numberText beat} is out of range"
  | lateHit sound hit =>
    .validation .timing (some (.index hit)) s!"{sound} hit is out of range"
  | backwards part tick =>
    .validation .timing none s!"{part} track goes back in time at tick {Json.natText tick}"
  | farApart part delta =>
    .validation .timing none
      s!"{part} track delta {Json.natText delta} exceeds the MIDI limit"

/-! ## Distances -/

/-- The entries of messages at ticks, counted from the tick before them. -/
def entriesFrom (part : String) : Nat → List (Nat × Message) → Except Fault (List Entry)
  | _, [] => .ok []
  | last, (tick, message) :: rest =>
    if tick < last then .error (.backwards part tick)
    else if deltaLimit ≤ tick - last then .error (.farApart part (tick - last))
    else (⟨tick, tick - last, message⟩ :: ·) <$> entriesFrom part tick rest

/-- Measuring distances neither loses nor moves a message. -/
theorem map_entriesFrom {part : String} {last : Nat} {messages : List (Nat × Message)}
    {entries : List Entry} (h : entriesFrom part last messages = .ok entries) :
    entries.map (fun e ↦ (e.tick, e.message)) = messages := by
  induction messages generalizing last entries with
  | nil =>
    rw [entriesFrom, Except.ok.injEq] at h
    rw [← h, List.map_nil]
  | cons m rest ih =>
    obtain ⟨tick, message⟩ := m
    rw [entriesFrom] at h
    split at h
    · exact absurd h (by simp)
    split at h
    · exact absurd h (by simp)
    cases hrest : entriesFrom part tick rest with
    | error fault =>
      rw [hrest] at h
      cases h
    | ok later =>
      rw [hrest] at h
      obtain rfl : _ :: later = entries := Except.ok.inj h
      rw [List.map_cons, ih hrest]

/-- The part that says messages at ticks. -/
def Part.ofTicks (name : String) (messages : List (Nat × Message)) : Except Fault Part :=
  .mk name <$> entriesFrom name 0 messages

/-! ## Tempo -/

/-- Whether a number is finite and positive. -/
def isPositive (x : Float) : Bool := (FloatValue.ofDouble x).isFinite && 0 < x

/-- The microseconds of a beat, if a score can hold that many. -/
def beatMicros? (bpm : Float) : Option Nat :=
  (FloatValue.ofDouble (60000000 / bpm)).nearest?.filter (· < microsLimit)

/-- The tick at which a measure starts, if there is one. -/
def measureTick? (beatsPerMeasure measure : UInt32) : Option Nat :=
  some (measure.toNat * beatsPerMeasure.toNat * ticksPerBeat) |>.filter (· < tickLimit)

/-- What a change of tempo says, and when. -/
def tempoMessage (beatsPerMeasure : UInt32) (c : TempoChange) : Except Fault (Nat × Message) :=
  if !isPositive c.bpm then .error (.invalidTempo c.measure c.bpm)
  else
    match beatMicros? c.bpm, measureTick? beatsPerMeasure c.measure with
    | none, _ => .error (.slowTempo c.measure c.bpm)
    | _, none => .error (.lateTempo c.measure)
    | some micros, some tick => .ok (tick, .tempo micros)

/-- The time signature of a song: quarter notes, as many to a measure as fit into a byte. -/
def signature (beatsPerMeasure : UInt32) : Message :=
  .timeSignature (min beatsPerMeasure.toNat 255) 2

/-- The tempo of a song. -/
def tempoPart (changes : List TempoChange) (beatsPerMeasure : UInt32) : Except Fault Part := do
  let sorted := changes.mergeSort fun a b ↦ a.measure ≤ b.measure
  let messages ← sorted.mapM (tempoMessage beatsPerMeasure)
  Part.ofTicks "TEMPO" ((0, signature beatsPerMeasure) :: messages)

/-! ## Milestones -/

/-- Whether a number is finite and not negative. -/
def isBeat (x : Float) : Bool := (FloatValue.ofDouble x).isFinite && 0 ≤ x

/-- The tick nearest to a beat, if there is one. -/
def beatTick? (beat : Float) : Option Nat :=
  (FloatValue.ofDouble (beat * 480)).nearest?.filter (· < tickLimit)

/-- What a milestone says, and when. -/
def markerMessage (e : SongEvent) : Except Fault (Nat × Message) :=
  if !isBeat e.beat then .error (.invalidBeat e.milestone e.beat)
  else
    match beatTick? e.beat with
    | none => .error (.lateBeat e.milestone e.beat)
    | some tick => .ok (tick, .marker e.milestone)

/-- The milestones of a song. -/
def markerPart (events : List SongEvent) : Except Fault Part := do
  let sorted := events.mergeSort fun a b ↦ floatRank a.beat ≤ floatRank b.beat
  let messages ← sorted.mapM markerMessage
  Part.ofTicks "EVENTS" messages

/-! ## Drums -/

/-- A note starts or stops. -/
structure Stroke where
  tick : Nat
  key : Nat
  stops : Bool
deriving DecidableEq, Repr

namespace Stroke

/-- What a stroke says. -/
def message (s : Stroke) : Message :=
  if s.stops then .noteOff s.key else .noteOn s.key drumVelocity

/-- Strokes go by tick; at one tick notes start before others stop. -/
def precedes (a b : Stroke) : Bool :=
  a.tick < b.tick || (a.tick == b.tick && (!a.stops || b.stops))

end Stroke

/-- The tick at which a drum stops that starts at a tick, or the last tick if that is earlier. -/
def stopTick (start : Nat) : Nat := min (start + drumGate) (tickLimit - 1)

/-- The strokes of a hit; both hits of a beat sound at its start. -/
def hitStrokes (sound : String) (hit : UInt32) : Except Fault (List Stroke) :=
  let start := hit.toNat / 2 * ticksPerBeat
  if start < tickLimit then
    .ok [⟨start, drumNote sound, false⟩, ⟨stopTick start, drumNote sound, true⟩]
  else .error (.lateHit sound hit)

/-- The strokes of a drum, hit by hit. -/
def drumStrokes (d : DrumTrack) : Except Fault (List Stroke) :=
  List.flatten <$> d.hits.mapM (hitStrokes d.sound)

/-- The drums of a song. -/
def drumPart (drums : List DrumTrack) : Except Fault Part := do
  let strokes ← drums.mapM drumStrokes
  let sorted := strokes.flatten.mergeSort Stroke.precedes
  Part.ofTicks "DRUMS" (sorted.map fun s ↦ (s.tick, s.message))

/-- The timing of a song. -/
def Score.compile (tempo : List TempoChange) (events : List SongEvent) (drums : List DrumTrack)
    (beatsPerMeasure : UInt32) : Except Fault Score := do
  let tempo ← tempoPart tempo beatsPerMeasure
  let markers ← markerPart events
  let drums ← drumPart drums
  return ⟨tempo, markers, drums⟩

end SongBundle.Timing
