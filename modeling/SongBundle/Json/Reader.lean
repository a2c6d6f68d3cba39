import SongBundle.Json.Token

/-!
# From tokens to a tree

`Json.read` turns a text into a `Document`: the tree of its first value and whether anything stands
after it.  The machine behind it, `Json.run`, takes one token at a time.  Its `State` says what may
come next and its list of `Frame`s which arrays and objects are still open, innermost first.

When the text stops being JSON the open lists are closed as they are and marked `Ending.torn`
(`Json.abandon`).
-/

set_option autoImplicit false

namespace SongBundle

/-- A text read as JSON. -/
structure Document where
  root : Json
  /-- Whether the text holds nothing but this value. -/
  complete : Bool

namespace Json

/-- An array or object that waits for the value being read.  What it already holds is kept last
item first. -/
inductive Frame where
  | array (items : List Json)
  | object (members : List (String × Json)) (key : String)

/-- What the next token may be. -/
inductive State where
  /-- A value. -/
  | value
  /-- The first item of an array, or its end. -/
  | firstItem
  /-- A comma or the end of an array. -/
  | afterItem (items : List Json)
  /-- The first key of an object, or its end. -/
  | firstKey
  /-- The key that must follow a comma. -/
  | key (members : List (String × Json))
  /-- The colon after a key. -/
  | colon (members : List (String × Json)) (key : String)
  /-- A comma or the end of an object. -/
  | afterMember (members : List (String × Json))

/-- The outcome of one token. -/
inductive Step where
  | proceed (state : State) (frames : List Frame)
  | finish (root : Json)
  | tear

/-- Hands a finished value to the innermost open list. -/
def deliver (j : Json) : List Frame → Step
  | [] => .finish j
  | .array items :: frames => .proceed (.afterItem (j :: items)) frames
  | .object members key :: frames => .proceed (.afterMember ((key, j) :: members)) frames

/-- What a token does. -/
def step : State → List Frame → Token → Step
  | .value, frames, .null => deliver .null frames
  | .value, frames, .bool b => deliver (.bool b) frames
  | .value, frames, .number l => deliver (.number l) frames
  | .value, frames, .string l => deliver (.string l) frames
  | .value, frames, .openArray => .proceed .firstItem frames
  | .value, frames, .openObject => .proceed .firstKey frames
  | .value, _, _ => .tear
  | .firstItem, frames, .closeArray => deliver (.array [] .closed) frames
  | .firstItem, frames, .null => .proceed (.afterItem [.null]) frames
  | .firstItem, frames, .bool b => .proceed (.afterItem [.bool b]) frames
  | .firstItem, frames, .number l => .proceed (.afterItem [.number l]) frames
  | .firstItem, frames, .string l => .proceed (.afterItem [.string l]) frames
  | .firstItem, frames, .openArray => .proceed .firstItem (.array [] :: frames)
  | .firstItem, frames, .openObject => .proceed .firstKey (.array [] :: frames)
  | .firstItem, _, _ => .tear
  | .afterItem items, frames, .comma => .proceed .value (.array items :: frames)
  | .afterItem items, frames, .closeArray => deliver (.array items.reverse .closed) frames
  | .afterItem _, _, _ => .tear
  | .firstKey, frames, .closeObject => deliver (.object [] .closed) frames
  | .firstKey, frames, .string l => .proceed (.colon [] l) frames
  | .firstKey, _, _ => .tear
  | .key members, frames, .string l => .proceed (.colon members l) frames
  | .key _, _, _ => .tear
  | .colon members key, frames, .colon => .proceed .value (.object members key :: frames)
  | .colon _ _, _, _ => .tear
  | .afterMember members, frames, .comma => .proceed (.key members) frames
  | .afterMember members, frames, .closeObject => deliver (.object members.reverse .closed) frames
  | .afterMember _, _, _ => .tear

/-- Closes every open list as it stands, the value being read being `j`. -/
def tearFrames (j : Json) : List Frame → Json
  | [] => j
  | .array items :: frames => tearFrames (.array (j :: items).reverse .torn) frames
  | .object members key :: frames =>
    tearFrames (.object ((key, j) :: members).reverse .torn) frames

/-- What is kept of a text that breaks off in a state. -/
def abandon : State → List Frame → Json
  | .value, frames => tearFrames .torn frames
  | .firstItem, frames => tearFrames (.array [] .torn) frames
  | .afterItem items, frames => tearFrames (.array items.reverse .torn) frames
  | .firstKey, frames => tearFrames (.object [] .torn) frames
  | .key members, frames => tearFrames (.object members.reverse .torn) frames
  | .colon members key, frames =>
    tearFrames (.object ((key, .torn) :: members).reverse .torn) frames
  | .afterMember members, frames => tearFrames (.object members.reverse .torn) frames

/-- Runs the machine over the tokens of a text. -/
def run : State → List Frame → List Token → Document
  | state, frames, [] => ⟨abandon state frames, false⟩
  | state, frames, t :: ts =>
    match step state frames t with
    | .proceed state frames => run state frames ts
    | .finish root => ⟨root, ts.isEmpty⟩
    | .tear => ⟨abandon state frames, false⟩

/-- Reads a text. -/
def read (text : String) : Document := run .value [] (tokens text.toList)

end Json

end SongBundle
