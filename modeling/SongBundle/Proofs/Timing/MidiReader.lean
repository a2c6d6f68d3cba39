/-!
# Reading MIDI files

`Midi.read` reads a standard MIDI file the way any player does.  It knows nothing of scores: it
takes the file apart into chunks, the content of a track into events, and tells what the events say.

* `readQuantity` reads a number in groups of seven bits, at most four of them.
* `readEvent` reads one event.  An event to a channel may leave out its status byte if the event
  right before it was one to a channel and had the same; any other event ends that.
* `readAll` reads again and again until no byte is left.
-/

set_option autoImplicit false

namespace SongBundle.Timing.Midi

/-- What happens at some point of a track. -/
inductive Event where
  | noteOff (channel key velocity : Nat)
  | noteOn (channel key velocity : Nat)
  /-- Anything else that is said to a channel: its status byte and its data. -/
  | control (status : UInt8) (data : List UInt8)
  /-- What is said to one make of device. -/
  | exclusive (data : List UInt8)
  | text (text : String)
  | trackName (name : String)
  | endOfTrack
  | tempo (micros : Nat)
  | timeSignature (numerator halvings clocks thirtySeconds : Nat)
  /-- Anything else that is said about the song: its type and its data. -/
  | other (type : Nat) (data : List UInt8)
deriving DecidableEq, Repr

/-- The events of a track, each with the ticks since the event before it. -/
abbrev Track := List (Nat × Event)

/-- A standard MIDI file. -/
structure File where
  format : Nat
  /-- The ticks of a beat, if less than `2 ^ 15`. -/
  division : Nat
  tracks : List Track
deriving DecidableEq, Repr

/-! ## Bytes -/

/-- What is read at the front of bytes, and the bytes after it. -/
abbrev Reader (α : Type) := List UInt8 → Option (α × List UInt8)

/-- The number that bytes stand for, the most significant one first. -/
def number (bytes : List UInt8) : Nat := bytes.foldl (fun n b ↦ 256 * n + b.toNat) 0

/-- The text that bytes stand for, one character each. -/
def textOf (bytes : List UInt8) : String := String.ofList (bytes.map fun b ↦ Char.ofNat b.toNat)

/-- Reads so many bytes. -/
def readBytes (count : Nat) : Reader (List UInt8) := fun bytes ↦
  if count ≤ bytes.length then some (bytes.take count, bytes.drop count) else none

/-- Reads a number of so many bytes. -/
def readNumber (count : Nat) : Reader Nat := fun bytes ↦
  (readBytes count bytes).map fun r ↦ (number r.1, r.2)

/-- Reads the rest of a number that has at most so many more groups of seven bits. -/
def readGroups : Nat → Nat → Reader Nat
  | 0, _, _ => none
  | _ + 1, _, [] => none
  | groups + 1, n, b :: bytes =>
    if b.toNat < 128 then some (128 * n + b.toNat, bytes)
    else readGroups groups (128 * n + (b.toNat - 128)) bytes

/-- Reads a number in groups of seven bits. -/
def readQuantity : Reader Nat := readGroups 4 0

/-- Reads bytes with their number in front of them. -/
def readCounted : Reader (List UInt8) := fun bytes ↦ do
  let (count, rest) ← readQuantity bytes
  readBytes count rest

/-- Reads until no byte is left, handing a state on; every time a byte must be taken at least. -/
def readAll {σ α : Type} (read : σ → Reader (α × σ)) (s : σ) (bytes : List UInt8) :
    Option (List α) :=
  if bytes = [] then some []
  else
    match read s bytes with
    | some ((a, s'), rest) =>
      if rest.length < bytes.length then (readAll read s' rest).map (a :: ·) else none
    | none => none
termination_by bytes.length

/-! ## Events -/

/-- The number of data bytes after a status byte. -/
def dataLength (status : UInt8) : Nat :=
  if status.toNat / 16 = 0xc ∨ status.toNat / 16 = 0xd then 1 else 2

/-- What is said to a channel. -/
def channelEvent (status : UInt8) (data : List UInt8) : Event :=
  match status.toNat / 16, data with
  | 0x8, [key, velocity] => .noteOff (status.toNat % 16) key.toNat velocity.toNat
  | 0x9, [key, velocity] => .noteOn (status.toNat % 16) key.toNat velocity.toNat
  | _, _ => .control status data

/-- What is said about a song. -/
def songEvent (type : UInt8) (data : List UInt8) : Event :=
  match type.toNat, data with
  | 0x01, _ => .text (textOf data)
  | 0x03, _ => .trackName (textOf data)
  | 0x2f, [] => .endOfTrack
  | 0x51, [_, _, _] => .tempo (number data)
  | 0x58, [numerator, halvings, clocks, thirtySeconds] =>
    .timeSignature numerator.toNat halvings.toNat clocks.toNat thirtySeconds.toNat
  | type, _ => .other type data

/-- Reads the data that follow a status byte; none of them has its high bit set. -/
def readChannelEvent (status : UInt8) : Reader (Event × Option UInt8) := fun bytes ↦ do
  let (data, rest) ← readBytes (dataLength status) bytes
  if data.all fun b ↦ b.toNat < 128 then
    some ((channelEvent status data, some status), rest)
  else none

/-- Reads an event, given the status byte that it may leave out, and says which one the next event
may leave out. -/
def readEvent (running : Option UInt8) : Reader (Event × Option UInt8)
  | [] => none
  | b :: bytes =>
    if b.toNat < 0x80 then
      match running with
      | some status => readChannelEvent status (b :: bytes)
      | none => none
    else if b.toNat < 0xf0 then readChannelEvent b bytes
    else if b.toNat = 0xff then
      match bytes with
      | [] => none
      | type :: bytes => do
        let (data, rest) ← readCounted bytes
        some ((songEvent type data, none), rest)
    else if b.toNat = 0xf0 ∨ b.toNat = 0xf7 then do
      let (data, rest) ← readCounted bytes
      some ((.exclusive data, none), rest)
    else none

/-- Reads the ticks since the event before, and an event. -/
def readTimedEvent (running : Option UInt8) : Reader ((Nat × Event) × Option UInt8) := fun bytes ↦ do
  let (delta, rest) ← readQuantity bytes
  let ((event, running), rest) ← readEvent running rest
  some (((delta, event), running), rest)

/-- Reads the content of a track. -/
def readTrack (content : List UInt8) : Option Track := readAll readTimedEvent none content

/-! ## Chunks -/

/-- Reads a chunk: its type and its content. -/
def readChunk : Reader (String × List UInt8) := fun bytes ↦ do
  let (type, rest) ← readBytes 4 bytes
  let (length, rest) ← readNumber 4 rest
  let (content, rest) ← readBytes length rest
  some ((textOf type, content), rest)

/-- Reads all chunks. -/
def readChunks (bytes : List UInt8) : Option (List (String × List UInt8)) :=
  readAll (fun (_ : Unit) bytes ↦ (readChunk bytes).map fun r ↦ ((r.1, ()), r.2)) () bytes

/-- Reads a header: the format, the number of tracks and the ticks of a beat. -/
def readHeader (content : List UInt8) : Option (Nat × Nat × Nat) := do
  let (format, rest) ← readNumber 2 content
  let (tracks, rest) ← readNumber 2 rest
  let (division, _) ← readNumber 2 rest
  some (format, tracks, division)

/-- Reads a file: a header, and as many tracks as it announces.  Chunks of unknown types are passed
over. -/
def read (bytes : List UInt8) : Option File :=
  match readChunks bytes with
  | some ((type, header) :: chunks) =>
    if type = "MThd" then do
      let (format, count, division) ← readHeader header
      let tracks ← (chunks.filter fun c ↦ c.1 = "MTrk").mapM fun c ↦ readTrack c.2
      if tracks.length = count then some ⟨format, division, tracks⟩ else none
    else none
  | _ => none

end SongBundle.Timing.Midi
