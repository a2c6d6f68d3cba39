import SongBundle.Timing.Score

/-!
# MIDI files

`Score.midi` writes a score as a standard MIDI file: a header chunk, and a track chunk for each part.

* `quantity` writes a number in groups of seven bits, the most significant group first; the high bit
  tells that another group follows.
* A note whose status byte is that of the message right before it leaves the byte out; every other
  message ends that run.
-/

set_option autoImplicit false

namespace SongBundle.Timing

/-! ## Numbers -/

/-- The last `count` bytes of a number, the most significant one first. -/
def bigEndian : Nat → Nat → List UInt8
  | 0, _ => []
  | count + 1, n => bigEndian count (n / 256) ++ [UInt8.ofNat n]

/-- The seven-bit groups of a number that stand before its last group, at most `count` of them. -/
def leadingGroups : Nat → Nat → List UInt8
  | 0, _ => []
  | count + 1, n =>
    if n = 0 then [] else leadingGroups count (n / 128) ++ [UInt8.ofNat (128 + n % 128)]

/-- A number below `2 ^ 28` in seven-bit groups. -/
def quantity (n : Nat) : List UInt8 := leadingGroups 3 (n / 128) ++ [UInt8.ofNat (n % 128)]

@[simp] theorem length_bigEndian (count n : Nat) : (bigEndian count n).length = count := by
  induction count generalizing n with
  | zero => rfl
  | succ count ih => rw [bigEndian, List.length_append, ih, List.length_singleton]

theorem length_leadingGroups_le (count n : Nat) : (leadingGroups count n).length ≤ count := by
  induction count generalizing n with
  | zero => exact Nat.le_refl 0
  | succ count ih =>
    rw [leadingGroups]
    split
    · exact Nat.zero_le _
    · rw [List.length_append, List.length_singleton]
      exact Nat.succ_le_succ (ih _)

/-- A number takes one to four bytes. -/
theorem length_quantity (n : Nat) : 0 < (quantity n).length ∧ (quantity n).length ≤ 4 := by
  have := length_leadingGroups_le 3 (n / 128)
  rw [quantity, List.length_append, List.length_singleton]
  omega

/-! ## Messages -/

/-- The bytes of a text. -/
def textBytes (s : String) : List UInt8 := s.toUTF8.data.toList

/-- A message that sounds no note: its type, its length and its data. -/
def metaMessage (type : UInt8) (data : List UInt8) : List UInt8 :=
  0xff :: type :: quantity data.length ++ data

namespace Message

/-- The status byte of a note, on the channel of the drums. -/
def status? : Message → Option UInt8
  | noteOn .. => some 0x99
  | noteOff .. => some 0x89
  | _ => none

/-- The bytes of a message, the status byte of a note aside. -/
def data : Message → List UInt8
  | timeSignature numerator halvings =>
    metaMessage 0x58 [UInt8.ofNat numerator, UInt8.ofNat halvings, 24, 8]
  | tempo micros => metaMessage 0x51 (bigEndian 3 micros)
  | marker milestone => metaMessage 0x01 (textBytes milestone.token)
  | noteOn key velocity => [UInt8.ofNat key, UInt8.ofNat velocity]
  | noteOff key => [UInt8.ofNat key, 0]

/-- The bytes of a message after one with the given status byte. -/
def bytesAfter (running : Option UInt8) (m : Message) : List UInt8 :=
  match m.status? with
  | some status => if running = some status then m.data else status :: m.data
  | none => m.data

end Message

/-! ## Chunks -/

/-- The bytes of entries that follow a message with the given status byte. -/
def entriesBytes : Option UInt8 → List Entry → List UInt8
  | _, [] => []
  | running, e :: entries =>
    quantity e.delta ++ (e.message.bytesAfter running ++ entriesBytes e.message.status? entries)

/-- A chunk of a file: its type, its length and its content. -/
def chunk (type : String) (content : List UInt8) : List UInt8 :=
  textBytes type ++ bigEndian 4 content.length ++ content

/-- The content of the chunk of a part: its name, its entries and an end mark. -/
def Part.content (p : Part) : List UInt8 :=
  0 :: metaMessage 0x03 (textBytes p.name) ++ entriesBytes none p.entries
    ++ 0 :: metaMessage 0x2f []

/-- The content of the header: tracks that run side by side, their number, and the ticks of a
beat. -/
def headerContent (tracks : Nat) : List UInt8 :=
  bigEndian 2 1 ++ bigEndian 2 tracks ++ bigEndian 2 ticksPerBeat

/-- A score as a standard MIDI file. -/
def Score.midi (s : Score) : List UInt8 :=
  chunk "MThd" (headerContent s.parts.length)
    ++ s.parts.flatMap fun p ↦ chunk "MTrk" p.content

end SongBundle.Timing
