import OpenApiDoc.Cli.Similar
import OpenApiDoc.Text.Quoted

/-! # Options on the command line

A command has switches with a long name and possibly a letter; some take a value, which stands in
the next argument, behind an equals sign, or directly behind the letter. Letters can be joined. Two
dashes end the switches. Where switches and operands may not be mixed, the first operand ends the
switches too. -/

namespace OpenApiDoc.Cli

/-- The switches of all commands. -/
inductive Switch where
  | verbose
  | help
  | output
  | format
deriving DecidableEq, Repr

/-- How a switch is written. -/
structure Spelling where
  switch : Switch
  long : String
  letter : Option Char
  takesValue : Bool

/-- What a command accepts. -/
structure Command where
  /-- The words it is called by. -/
  path : String
  /-- What may follow these words. -/
  arguments : String
  spellings : List Spelling
  /-- Whether switches may stand behind operands. -/
  mixed : Bool

/-- Command lines that do not fit. -/
inductive UsageError where
  | noSuchSwitch (name : String) (close : List String)
  | needsValue (name : String)
  | takesNoValue (name : String)
  | missingCommand
  | noSuchCommand (name : String) (close : List String)
  | missingArgument (name : String)
  | extraArguments (arguments : List String)
  | notAChoice (name given : String) (choices : List String)
deriving DecidableEq, Repr

namespace UsageError

/-- The words that lead to a known name. -/
def suggestion : List String → String
  | [] => ""
  | [name] => " Did you mean " ++ Text.quoted name ++ "?"
  | names => " (Did you mean one of: " ++ ", ".intercalate (names.map Text.quoted) ++ "?)"

def message : UsageError → String
  | .noSuchSwitch name close => "No such option " ++ Text.quoted name ++ "." ++ suggestion close
  | .needsValue name => "Option " ++ Text.quoted name ++ " requires an argument."
  | .takesNoValue name => "Option " ++ Text.quoted name ++ " does not take a value."
  | .missingCommand => "Missing command."
  | .noSuchCommand name close => "No such command " ++ Text.quoted name ++ "." ++ suggestion close
  | .missingArgument name => "Missing argument '" ++ name ++ "'."
  | .extraArguments [a] => "Got unexpected extra argument (" ++ a ++ ")"
  | .extraArguments as => "Got unexpected extra arguments (" ++ " ".intercalate as ++ ")"
  | .notAChoice name given choices =>
    "Invalid value for '" ++ name ++ "': " ++ Text.quoted given ++ " is not one of "
      ++ ", ".intercalate (choices.map Text.quoted) ++ "."

/-- The error is shown without the usage of the command. -/
def standsAlone : UsageError → Bool
  | .needsValue _ => true
  | .takesNoValue _ => true
  | _ => false

end UsageError

/-- The switches that occur, with the values of those that take one, and the operands. -/
structure Parsed where
  switches : List (Switch × String)
  operands : List String
deriving Repr

namespace Parsed

def empty : Parsed := ⟨[], []⟩

def has (p : Parsed) (s : Switch) : Bool := p.switches.any fun e => e.1 = s

/-- The switch occurs before another one. -/
def precedes (p : Parsed) (s t : Switch) : Bool :=
  (p.switches.find? fun e => e.1 = s ∨ e.1 = t).any fun e => e.1 = s

/-- The value of a switch; the last one counts. -/
def value? (p : Parsed) (s : Switch) : Option String := p.switches.reverse.lookup s

def withSwitches (new : List (Switch × String)) (p : Parsed) : Parsed :=
  { p with switches := new ++ p.switches }

def withOperand (a : String) (p : Parsed) : Parsed := { p with operands := a :: p.operands }

end Parsed

/-- What one argument says: complete switches, and the name of a switch whose value comes next. -/
structure Reading where
  switches : List (Switch × String)
  awaiting : Option (Switch × String)

namespace Command

/-- The argument is not an operand. -/
def isSwitch (a : String) : Bool := a.startsWith "-" && a.length > 1

/-- The long names of a command, in the order of the alphabet. -/
def longNames (c : Command) : List String := (c.spellings.map (·.long)).mergeSort

/-- The text before the first equals sign, and the text behind it. -/
def splitValue (a : String) : String × Option String :=
  let cs := a.toList
  let name := String.ofList (cs.takeWhile (· ≠ '='))
  match cs.dropWhile (· ≠ '=') with
  | [] => (name, none)
  | _ :: value => (name, some (String.ofList value))

/-- Joined letters. -/
def readLetters (c : Command) : List Char → Except UsageError Reading
  | [] => .ok ⟨[], none⟩
  | l :: rest =>
    let name := String.ofList ['-', l]
    match c.spellings.find? fun s => s.letter = some l with
    | none => .error (.noSuchSwitch name [])
    | some s =>
      if s.takesValue then
        if rest.isEmpty then .ok ⟨[], some (s.switch, name)⟩
        else .ok ⟨[(s.switch, String.ofList rest)], none⟩
      else (c.readLetters rest).map fun r => { r with switches := (s.switch, "") :: r.switches }

/-- One argument that is a switch. -/
def readSwitch (c : Command) (a : String) : Except UsageError Reading :=
  let (name, value) := splitValue a
  match c.spellings.find? fun s => s.long = name with
  | some s =>
    match s.takesValue, value with
    | true, some v => .ok ⟨[(s.switch, v)], none⟩
    | true, none => .ok ⟨[], some (s.switch, name)⟩
    | false, some _ => .error (.takesNoValue name)
    | false, none => .ok ⟨[(s.switch, "")], none⟩
  | none =>
    if a.startsWith "--" then .error (.noSuchSwitch name (Similar.closeTo name c.longNames))
    else c.readLetters (a.toList.drop 1)

/-- Read the arguments of a command. -/
def parse (c : Command) : List String → Except UsageError Parsed
  | [] => .ok .empty
  | "--" :: rest => .ok ⟨[], rest⟩
  | a :: rest =>
    if isSwitch a then
      match c.readSwitch a, rest with
      | .error e, _ => .error e
      | .ok ⟨new, none⟩, rest => (c.parse rest).map (.withSwitches new)
      | .ok ⟨_, some (_, name)⟩, [] => .error (.needsValue name)
      | .ok ⟨new, some (s, _)⟩, v :: rest =>
        (c.parse rest).map (.withSwitches (new ++ [(s, v)]))
    else if c.mixed then (c.parse rest).map (.withOperand a)
    else .ok ⟨[], a :: rest⟩

end Command
end OpenApiDoc.Cli
