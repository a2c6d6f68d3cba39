import SongBundle.Difficulty
import SongBundle.Event
import SongBundle.MoveName

/-!
# Practice

A song is practised in sections.  Every move of a section is learnt together with the move that
follows it, and at the end of a section everything learnt in it is reviewed.

`Practice.compile` makes the plan of one level.  The move that follows the last one of a section is
the first one of the next section that has any; only the last move of the last section has none, so
a plan fails if sections without moves come last.
-/

set_option autoImplicit false

namespace SongBundle.Practice

open Json (Record Decoder)

/-- What is done in a step. -/
inductive Kind where
  | learn
  | review
deriving DecidableEq, Repr

/-- The name of a kind of step. -/
def Kind.text : Kind → String
  | .learn => "learn"
  | .review => "review"

instance : Named Kind where
  what := "practice step type"
  all := [.learn, .review]
  name := Kind.text

/-- A step of a section. -/
structure Step where
  kind : Kind
  /-- The short name of the first move. -/
  first : String
  /-- The short name of the move it leads into. -/
  next : String
  /-- Whether that move belongs to a later section. -/
  crosses : Bool
  /-- The measure of the first move, counted from one. -/
  measure : UInt32
deriving DecidableEq, Repr

/-- A section of a song. -/
structure Section where
  index : Nat
  steps : List Step
deriving DecidableEq, Repr

/-- The song that a short name belongs to. -/
structure SongRef where
  origin : String
  song : String
deriving DecidableEq, Repr

/-- The practice data of one level. -/
structure Plan where
  sections : List Section
  /-- Where the move with a short name comes from. -/
  songs : Table String SongRef

/-! ## JSON -/

def Step.fields : Record Step :=
  Step.mk <$> .required "type" Named.decoder <*> .required "start" Decoder.text
    <*> .required "end" Decoder.text <*> .required "boundary" Decoder.bool
    <*> .required "measure" Decoder.u32

def Step.decoder : Decoder Step := Step.fields.decoder "PracticeStep"

def Step.toJson (s : Step) : Json :=
  .record [("type", Named.toJson s.kind), ("start", .ofString s.first), ("end", .ofString s.next),
    ("boundary", .bool s.crosses), ("measure", .ofWord s.measure)]

def Section.fields : Record Section :=
  Section.mk <$> .required "index" Decoder.position
    <*> .required "steps" (Decoder.list Step.decoder)

def Section.decoder : Decoder Section := Section.fields.decoder "PracticeSection"

def Section.toJson (s : Section) : Json :=
  .record [("index", .ofNat s.index), ("steps", .ofList Step.toJson s.steps)]

def SongRef.fields : Record SongRef :=
  SongRef.mk <$> .required "origin" Decoder.text <*> .required "song" Decoder.text

def SongRef.decoder : Decoder SongRef := SongRef.fields.decoder "SongRef"

def SongRef.toJson (s : SongRef) : Json :=
  .record [("origin", .ofString s.origin), ("song", .ofString s.song)]

namespace Plan

def fields : Record Plan :=
  Plan.mk <$> .required "sections" (Decoder.list Section.decoder)
    <*> .required "song_names" (Decoder.table Decoder.lexeme SongRef.decoder)

def decoder : Decoder Plan := fields.decoder "PracticePlan"

def toJson (p : Plan) : Json :=
  .record [("sections", .ofList Section.toJson p.sections),
    ("song_names", .ofTable id SongRef.toJson p.songs)]

/-- All steps of a plan, section by section. -/
def steps (p : Plan) : List Step := p.sections.flatMap Section.steps

end Plan

/-! ## Making a plan -/

/-- Why sections make no plan: no move follows the one at `measure`. -/
structure Fault where
  measure : UInt32
  /-- The short name of the move. -/
  move : String
  level : Difficulty
  /-- The index of its section. -/
  index : Nat
deriving DecidableEq, Repr

/-- The report on a fault. -/
def Fault.report (f : Fault) : BuildError :=
  .atMeasure .practice f.measure
    s!"no next move found after `{f.move}` in {f.level.text} section {Json.natText f.index}"

/-- The short name of the move of an event. -/
def shortName (e : MoveEvent) : String := MoveName.short e.move e.song

/-- The step that teaches a move and the one it leads into. -/
def learnStep (e next : MoveEvent) (crosses : Bool) : Step :=
  ⟨.learn, shortName e, shortName next, crosses, e.measure⟩

/-- The first move of the first section that has any. -/
def firstMove? (sections : List (List MoveEvent)) : Option MoveEvent :=
  sections.findSome? List.head?

/-- The steps that teach the moves of a section, the sections in `later` following it. -/
def learnSteps (level : Difficulty) (index : Nat) (later : List (List MoveEvent)) :
    List MoveEvent → Except Fault (List Step)
  | [] => .ok []
  | [e] =>
    if later.isEmpty then .ok []
    else
      match firstMove? later with
      | some next => .ok [learnStep e next true]
      | none => .error ⟨e.measure, shortName e, level, index⟩
  | e :: next :: moves => do
    let steps ← learnSteps level index later (next :: moves)
    return learnStep e next false :: steps

/-- The step that repeats what a section taught, if it taught anything. -/
def reviewStep? (steps : List Step) : Option Step :=
  match steps.head?, steps.getLast? with
  | some first, some last => some ⟨.review, first.first, last.next, last.crosses, first.measure⟩
  | _, _ => none

/-- The sections of a plan, counted from `index`. -/
def compileSections (level : Difficulty) :
    Nat → List (List MoveEvent) → Except Fault (List Section)
  | _, [] => .ok []
  | index, moves :: later => do
    let steps ← learnSteps level index later moves
    let sections ← compileSections level (index + 1) later
    return ⟨index, steps ++ (reviewStep? steps).toList⟩ :: sections

/-- Notes where a move comes from, unless its short name is known already. -/
def noteSong (songs : Table String SongRef) (e : MoveEvent) : Table String SongRef :=
  if songs.contains (shortName e) then songs
  else songs.insert (shortName e) ⟨e.origin, e.song⟩

/-- The practice plan of a level. -/
def compile (level : Difficulty) (sections : List (List MoveEvent)) : Except Fault Plan := do
  let compiled ← compileSections level 0 sections
  return ⟨compiled, sections.flatten.foldl noteSong .empty⟩

end SongBundle.Practice
