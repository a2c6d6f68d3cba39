import SongBundle.Event

/-!
# Party jumps

During a party jump everybody dances.  An author marks where jumps start and end, and
`PartyJump.compile` pairs the marks into intervals.  Only one jump is under way at a time.

The marks of one measure are taken in turns: whenever there is a choice, an end is taken while a jump
is under way and a start while there is none (`PartyJump.pick`).  So a jump may end on the measure on
which the next one starts, and may start and end on one measure.
-/

set_option autoImplicit false

namespace SongBundle.PartyJump

open Json (Record Decoder)

/-- What an author marks. -/
inductive Mark where
  | start
  | stop
deriving DecidableEq, Repr

/-- The name of a mark. -/
def Mark.text : Mark → String
  | .start => "start"
  | .stop => "end"

instance : Named Mark where
  what := "party jump marker"
  all := [.start, .stop]
  name := Mark.text

/-- A mark at a measure, counted from zero. -/
structure Event where
  measure : UInt32
  mark : Mark
deriving DecidableEq, Repr

namespace Event

def fields : Record Event :=
  Event.mk <$> .required "measure" Decoder.u32 <*> .required "type" Named.decoder

def decoder : Decoder Event := fields.decoder "PartyJumpEvent"

def toJson (e : Event) : Json :=
  .record [("measure", .ofWord e.measure), ("type", Named.toJson e.mark)]

end Event

/-- The measures of a jump, both ends included. -/
structure Interval where
  first : UInt32
  last : UInt32
deriving DecidableEq, Repr

namespace Interval

def fields : Record Interval :=
  Interval.mk <$> .required "start" Decoder.u32 <*> .required "end" Decoder.u32

def decoder : Decoder Interval := fields.decoder "PartyJumpInterval"

def toJson (i : Interval) : Json :=
  .record [("start", .ofWord i.first), ("end", .ofWord i.last)]

end Interval

/-! ## Pairing -/

/-- Why marks make no jumps. -/
inductive Fault where
  | pastEnd (measure total : UInt32)
  | startedTwice (measure since : UInt32)
  | neverStarted (measure : UInt32)
  | neverClosed (measure : UInt32)
deriving DecidableEq, Repr

namespace Fault

/-- The measure a fault points at. -/
def measure : Fault → UInt32
  | pastEnd measure _ => measure
  | startedTwice measure _ => measure
  | neverStarted measure => measure
  | neverClosed measure => measure

/-- The words for a fault. -/
def message : Fault → String
  | pastEnd _ total => s!"party jump marker past the song's {wordText total} measures"
  | startedTwice _ since =>
    s!"party jump start while the one from measure {wordText since} is still open"
  | neverStarted _ => "party jump end without a start"
  | neverClosed _ => "party jump start is never closed"

/-- The report on a fault. -/
def report (f : Fault) : BuildError := .atMeasure .partyJump f.measure f.message

end Fault

/-- What is known after some of the marks. -/
structure Progress where
  /-- The first measure of the jump under way. -/
  current : Option UInt32
  /-- The jumps that ended, the latest first. -/
  ended : List Interval
deriving DecidableEq, Repr

namespace Progress

/-- Nothing has been marked yet. -/
def initial : Progress := ⟨none, []⟩

/-- The mark that is taken first when there is a choice. -/
def wanted (p : Progress) : Mark := if p.current.isSome then .stop else .start

/-- Takes one mark. -/
def advance (total : UInt32) (p : Progress) (e : Event) : Except Fault Progress :=
  if total ≤ e.measure then .error (.pastEnd e.measure total)
  else
    match e.mark, p.current with
    | .start, none => .ok { p with current := some e.measure }
    | .start, some since => .error (.startedTwice e.measure since)
    | .stop, some first => .ok ⟨none, ⟨first, e.measure⟩ :: p.ended⟩
    | .stop, none => .error (.neverStarted e.measure)

/-- The jumps in order, once all marks are taken. -/
def finish (p : Progress) : Except Fault (List Interval) :=
  match p.current with
  | some first => .error (.neverClosed first)
  | none => .ok p.ended.reverse

end Progress

/-- The mark of a measure that is taken next and the others: the first one of the wanted kind, or
the first one there is. -/
def pick (wanted : Mark) (e : Event) (es : List Event) : Event × List Event :=
  match (e :: es).find? (·.mark = wanted) with
  | some chosen => (chosen, (e :: es).erase chosen)
  | none => (e, es)

theorem length_pick (wanted : Mark) (e : Event) (es : List Event) :
    (pick wanted e es).2.length = es.length := by
  rw [pick]
  split
  · rename_i chosen h
    rw [List.length_erase_of_mem (List.mem_of_find?_eq_some h)]
    simp
  · rfl

/-- Takes the marks of one measure in turns. -/
def advanceMeasure (total : UInt32) (p : Progress) (group : List Event) : Except Fault Progress :=
  match group with
  | [] => .ok p
  | e :: es => do
    let chosen := pick p.wanted e es
    let p ← p.advance total chosen.1
    advanceMeasure total p chosen.2
termination_by group.length
decreasing_by
  rw [length_pick]
  simp

/-- The jumps of a song of `total` measures, in the order in which they end. -/
def compile (events : List Event) (total : UInt32) : Except Fault (List Interval) := do
  let sorted := events.mergeSort fun a b ↦ a.measure ≤ b.measure
  let groups := sorted.splitBy fun a b ↦ a.measure == b.measure
  let progress ← groups.foldlM (advanceMeasure total) .initial
  progress.finish

end SongBundle.PartyJump
