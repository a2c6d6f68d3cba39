import SongBundle.Named

/-!
# The arguments of the command

The command is called as `build REQUEST`, `check REQUEST` or `midi REQUEST OUTPUT`.  The settings file
may be named before or after the verb by `--config FILE` or `-c FILE`, and `build` takes
`--output DIR` or `-o DIR`.  A value may be attached to its option, as in `--config=FILE`, `-cFILE` or
`-c=FILE`, and after `--` every argument is an operand.

Arguments are taken from left to right (`Scan.run`).  Whoever asks for help gets it, unless something
before the question is wrong.  A value that stands apart from its option, or an operand, is only looked
at when the next option or operand begins, or at the end.
-/

set_option autoImplicit false

namespace SongBundle.Command

/-- What the command is asked to do. -/
inductive Verb where
  | build
  | check
  | midi
deriving DecidableEq, Repr

/-- The word for a verb. -/
def Verb.text : Verb → String
  | .build => "build"
  | .check => "check"
  | .midi => "midi"

instance : Named Verb where
  what := "command"
  all := [.build, .check, .midi]
  name := Verb.text

/-- The options that take a value. -/
inductive Setting where
  | config
  | output
deriving DecidableEq, Repr

/-- Why the command does not start to work. -/
inductive Stop where
  /-- Help or the version was asked for. -/
  | answered
  /-- The arguments make no sense. -/
  | misused
deriving DecidableEq, Repr

/-- What arguments may stand in a place. -/
structure Form where
  /-- Whether the bundle directory may be stated. -/
  takesOutput : Bool
  /-- Whether the version may be asked for. -/
  showsVersion : Bool
  /-- The number of operands; the first word is a verb where there are none. -/
  operands : Nat
deriving DecidableEq, Repr

/-- The arguments before the verb. -/
def Form.top : Form := ⟨false, true, 0⟩

/-- The arguments after a verb. -/
def Verb.form : Verb → Form
  | .build => ⟨true, false, 1⟩
  | .check => ⟨false, false, 1⟩
  | .midi => ⟨false, false, 2⟩

/-- What an option is for. -/
inductive Purpose where
  | sets (setting : Setting)
  | asks
deriving DecidableEq, Repr

namespace Form

/-- The purpose of an option with a long name. -/
def long? (f : Form) : String → Option Purpose
  | "config" => some (.sets .config)
  | "output" => if f.takesOutput then some (.sets .output) else none
  | "help" => some .asks
  | "version" => if f.showsVersion then some .asks else none
  | _ => none

/-- The purpose of an option with a short name. -/
def short? (f : Form) : Char → Option Purpose
  | 'c' => some (.sets .config)
  | 'o' => if f.takesOutput then some (.sets .output) else none
  | 'h' => some .asks
  | 'V' => if f.showsVersion then some .asks else none
  | _ => none

end Form

/-! ## Single arguments -/

/-- How an argument looks. -/
inductive Argument where
  /-- Every argument after this one is an operand. -/
  | divider
  /-- A long option, perhaps with a value attached. -/
  | long (name : String) (value : Option String)
  /-- A short option, and the characters after it. -/
  | short (name : Char) (rest : List Char)
  | word (text : String)
deriving DecidableEq, Repr

/-- Splits a long option at its first equals sign. -/
def splitValue (cs : List Char) : String × Option String :=
  match cs.dropWhile (· ≠ '=') with
  | [] => (String.ofList cs, none)
  | _ :: value => (String.ofList (cs.takeWhile (· ≠ '=')), some (String.ofList value))

/-- How an argument looks. -/
def Argument.ofText (text : String) : Argument :=
  match text.toList with
  | ['-', '-'] => .divider
  | '-' :: '-' :: cs => .long (splitValue cs).1 (splitValue cs).2
  | '-' :: c :: cs => .short c cs
  | _ => .word text

/-- The value attached to a short option. -/
def attached? : List Char → Option String
  | [] => none
  | '=' :: cs => some (String.ofList cs)
  | cs => some (String.ofList cs)

/-! ## Scanning -/

/-- An argument that is not looked at yet. -/
inductive Pending where
  | nothing
  /-- An option whose value is still to come. -/
  | awaits (setting : Setting)
  | value (setting : Setting) (text : String)
  | operand (text : String)
deriving DecidableEq, Repr

/-- What the arguments so far have said. -/
structure Scan where
  settings : List (Setting × String)
  operands : List String
  pending : Pending
deriving DecidableEq, Repr

namespace Scan

/-- Nothing was said yet. -/
def initial : Scan := ⟨[], [], .nothing⟩

/-- Takes a setting, which must not be empty and may be given once. -/
def give (s : Scan) (setting : Setting) (text : String) : Except Stop Scan :=
  if text = "" ∨ (s.settings.lookup setting).isSome then .error .misused
  else .ok { s with settings := (setting, text) :: s.settings, pending := .nothing }

/-- Looks at the argument that waits. -/
def settle (s : Scan) : Except Stop Scan :=
  match s.pending with
  | .nothing => .ok s
  | .awaits _ => .error .misused
  | .value setting text => s.give setting text
  | .operand text =>
    if text = "" then .error .misused
    else .ok { s with operands := s.operands ++ [text], pending := .nothing }

/-- The number of operands, the one that waits included. -/
def operandCount (s : Scan) : Nat :=
  match s.pending with
  | .operand _ => s.operands.length + 1
  | _ => s.operands.length

/-- Takes an operand, if there is room for one. -/
def operand (f : Form) (s : Scan) (text : String) : Except Stop Scan :=
  if s.operandCount < f.operands then do return { ← s.settle with pending := .operand text }
  else .error .misused

/-- Takes an option. -/
def option (s : Scan) (purpose : Option Purpose) (value : Option String) : Except Stop Scan := do
  match purpose, value with
  | none, _ => throw .misused
  | some .asks, _ =>
    let _ ← s.settle
    throw .answered
  | some (.sets setting), some text => (← s.settle).give setting text
  | some (.sets setting), none => return { ← s.settle with pending := .awaits setting }

/-- Takes arguments, up to the verb if one is due: its word and the arguments after it are given
back. -/
def run (f : Form) : Bool → Scan → List String →
    Except Stop (Scan × Option (String × List String))
  | _, s, [] => .ok (s, none)
  | true, s, text :: rest => do run f true (← s.operand f text) rest
  | false, s, text :: rest =>
    match Argument.ofText text with
    | .divider => run f true s rest
    | .long name value =>
      match f.long? name, value with
      | some .asks, some _ => .error .misused
      | purpose, value => do run f false (← s.option purpose value) rest
    | .short c cs => do
      let purpose := f.short? c
      let value := if purpose = some .asks then none else attached? cs
      run f false (← s.option purpose value) rest
    | .word text =>
      match s.pending with
      | .awaits setting => run f false { s with pending := .value setting text } rest
      | _ =>
        if f.operands = 0 then .ok (s, some (text, rest))
        else do run f false (← s.operand f text) rest

end Scan

/-! ## Calls -/

/-- A call of the command. -/
structure Call where
  verb : Verb
  config : Option String
  request : String
  /-- The directory or file that takes what is made, if it is stated. -/
  output : Option String
deriving DecidableEq, Repr

/-- Whether help on some words can be given: there is help on the verbs and on help itself. -/
def helpExists : List String → Bool
  | [] => true
  | [word] => word = "help" || (Named.find? word : Option Verb).isSome
  | _ => false

/-- The call made by the arguments after a verb, given those before it. -/
def Verb.call (verb : Verb) (before : Scan) (arguments : List String) : Except Stop Call := do
  let (after, _) ← Scan.run verb.form false .initial arguments
  let after ← after.settle
  let config := after.settings.lookup .config
  let output := after.settings.lookup .output
  match verb, after.operands with
  | .midi, [request, output] => complete ⟨verb, config, request, some output⟩
  | .midi, _ => throw .misused
  | _, [request] => complete ⟨verb, config, request, output⟩
  | _, _ => throw .misused
where
  /-- Settles what stands before the verb; a setting after it takes precedence. -/
  complete (call : Call) : Except Stop Call := do
    let before ← before.settle
    return { call with config := call.config <|> before.settings.lookup .config }

/-- The call that arguments make. -/
def Call.ofArguments (arguments : List String) : Except Stop Call := do
  let (before, word) ← Scan.run .top false .initial arguments
  match word with
  | none => throw .misused
  | some (word, rest) =>
    if word = "help" then throw (if helpExists rest then .answered else .misused)
    match Named.find? word with
    | some (verb : Verb) => verb.call before rest
    | none => throw .misused

end SongBundle.Command
