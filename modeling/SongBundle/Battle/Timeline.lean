import SongBundle.Battle.Basic

/-!
# The timeline of a battle

`Battle.compile` turns the marks of a battle into steps that cover every measure of the song.  The
marks are taken in the order of their measures, on one measure the battle start first and ends
last; `Progress` is what is known of the battle after some of them.  Solos and minigames may not
overlap, not even by one measure, and lie inside the battle and the song.

The measures between them become bridges of common play, which come first in the result; before the
battle starts nobody dances.
-/

set_option autoImplicit false

namespace SongBundle.Battle

/-- The least number of measures of a minigame. -/
def leastMinigame : UInt32 := 5

/-- A solo or minigame and the measures it takes. -/
structure Interval where
  kind : Kind
  range : MeasureRange
deriving DecidableEq, Repr

/-- Why marks make no battle. -/
inductive Fault where
  | noMeasures
  | pastEnd (mark : Mark) (measure last : UInt32)
  | startedTwice (measure first : UInt32)
  | beforeBattle (kind : Kind) (measure : UInt32)
  | openTwice (kind : Kind) (measure since : UInt32)
  | duringOther (kind : Kind) (measure : UInt32) (other : Kind)
  | notAfter (kind : Kind) (measure last : UInt32)
  | neverOpened (kind : Kind) (measure : UInt32)
  | shortMinigame (measure length : UInt32)
  | noStart
  | neverClosed (kind : Kind) (measure : UInt32)
deriving DecidableEq, Repr

namespace Fault

/-- The measure a fault points at. -/
def measure? : Fault → Option UInt32
  | noMeasures => none
  | pastEnd _ measure _ => some measure
  | startedTwice measure _ => some measure
  | beforeBattle _ measure => some measure
  | openTwice _ measure _ => some measure
  | duringOther _ measure _ => some measure
  | notAfter _ measure _ => some measure
  | neverOpened _ measure => some measure
  | shortMinigame measure _ => some measure
  | noStart => none
  | neverClosed _ measure => some measure

/-- The words for a fault. -/
def message : Fault → String
  | noMeasures => "song has no measures"
  | pastEnd mark _ last => s!"{mark.text} lies past the last measure {wordText last}"
  | startedTwice _ first =>
    s!"duplicate battle start, battle already started at measure {wordText first}"
  | beforeBattle kind _ => s!"{kind.label} starts before the battle start"
  | openTwice kind _ since => s!"{kind.label} already open since measure {wordText since}"
  | duringOther kind _ other => s!"{kind.label} collides with open {other.label}"
  | notAfter kind _ last =>
    s!"{kind.label} collides with an interval ending at measure {wordText last}"
  | neverOpened kind _ => s!"{kind.label} ends without a matching start"
  | shortMinigame _ length =>
    s!"minigame spans {wordText length} measures, at least {wordText leastMinigame} are required"
  | noStart => "no battle start event"
  | neverClosed kind _ => s!"{kind.label} is never closed"

/-- The report on a fault. -/
def report (f : Fault) : BuildError :=
  .validation .battle (f.measure?.map Location.measure) f.message

end Fault

/-! ## Following the marks -/

/-- The order of marks on one measure. -/
def Mark.rank : Mark → Nat
  | .battleStart => 0
  | .opens _ => 1
  | .closes _ => 2

/-- Whether an event is to be taken no later than another. -/
def Event.before (a b : Event) : Bool :=
  a.measure < b.measure || (a.measure == b.measure && a.mark.rank ≤ b.mark.rank)

/-- What is known of a battle after some of its marks. -/
structure Progress where
  /-- The measure at which the battle started. -/
  started : Option UInt32
  /-- The solo or minigame under way and its first measure. -/
  current : Option (Kind × UInt32)
  /-- The intervals that ended, the latest first. -/
  ended : List Interval
deriving DecidableEq, Repr

namespace Progress

/-- Nothing has been marked yet. -/
def initial : Progress := ⟨none, none, []⟩

/-- The battle starts. -/
def start (p : Progress) (measure : UInt32) : Except Fault Progress :=
  match p.started with
  | some first => .error (.startedTwice measure first)
  | none => .ok { p with started := some measure }

/-- A solo or minigame starts. -/
def openAt (p : Progress) (kind : Kind) (measure : UInt32) : Except Fault Progress :=
  match p.started, p.current, p.ended with
  | none, _, _ => .error (.beforeBattle kind measure)
  | some _, some (other, since), _ =>
    if other = kind then .error (.openTwice kind measure since)
    else .error (.duringOther kind measure other)
  | some _, none, latest :: _ =>
    if measure ≤ latest.range.last then .error (.notAfter kind measure latest.range.last)
    else .ok { p with current := some (kind, measure) }
  | some _, none, [] => .ok { p with current := some (kind, measure) }

/-- A solo or minigame ends. -/
def closeAt (p : Progress) (kind : Kind) (measure : UInt32) : Except Fault Progress :=
  match p.current with
  | some (other, first) =>
    if other ≠ kind then .error (.neverOpened kind measure)
    else
      let range : MeasureRange := ⟨first, measure⟩
      if kind = .minigame ∧ range.length < leastMinigame then
        .error (.shortMinigame first range.length)
      else .ok { p with current := none, ended := ⟨kind, range⟩ :: p.ended }
  | none => .error (.neverOpened kind measure)

/-- Takes the next mark of a song whose last measure is `last`. -/
def advance (last : UInt32) (p : Progress) (e : Event) : Except Fault Progress :=
  if last < e.measure then .error (.pastEnd e.mark e.measure last)
  else
    match e.mark with
    | .battleStart => p.start e.measure
    | .opens kind => p.openAt kind e.measure
    | .closes kind => p.closeAt kind e.measure

/-- The start of a battle and its intervals in order, once all marks are taken. -/
def finish (p : Progress) : Except Fault (UInt32 × List Interval) :=
  match p.started, p.current with
  | none, _ => .error .noStart
  | some _, some (kind, first) => .error (.neverClosed kind first)
  | some measure, none => .ok (measure, p.ended.reverse)

end Progress

/-! ## Steps -/

/-- The step of a solo or minigame. -/
def Interval.step (i : Interval) : Step :=
  match i.kind with
  | .firstSolo => ⟨.first, i.range, some i.range, .firstSolo, .watch, .solo⟩
  | .secondSolo => ⟨.second, i.range, some i.range, .secondSolo, .watch, .solo⟩
  | .minigame => ⟨.both, i.range, some i.range, .minigame, .none, .minigame⟩

/-- Common play over a range, as far as the battle has started. -/
def bridge (start : UInt32) (range : MeasureRange) : Step :=
  let first := max range.first start
  if first ≤ range.last then ⟨.both, range, some ⟨first, range.last⟩, .normal, .none, .normal⟩
  else ⟨.both, range, none, .normal, .idle, .normal⟩

/-- The ranges that ascending intervals leave free between a measure and the last one. -/
def gaps (last : UInt32) : UInt32 → List Interval → List MeasureRange
  | next, [] => if next ≤ last then [⟨next, last⟩] else []
  | next, i :: is =>
    if next < i.range.first then
      ⟨next, i.range.first - 1⟩ :: gaps last (i.range.last + 1) is
    else gaps last (i.range.last + 1) is

/-- The steps of a battle in a song of `total` measures: bridges in order, then solos and minigames
in order. -/
def compile (events : List Event) (total : UInt32) : Except Fault (List Step) := do
  if total = 0 then throw .noMeasures
  let last := total - 1
  let progress ← (events.mergeSort Event.before).foldlM (Progress.advance last) .initial
  let (start, intervals) ← progress.finish
  return (gaps last 0 intervals).map (bridge start) ++ intervals.map Interval.step

end SongBundle.Battle
