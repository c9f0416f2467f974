import AvroTypings.Settings
import AvroTypings.Text.Blank
import AvroTypings.Text.Plain

/-!
# The command line

Settings are taken from arguments, then from the environment, then from defaults. Arguments are read
from left to right. An option may be followed by its value as the next argument; such a pair is only
accepted when the next option or the end is reached, so that an argument which is no option at all
is reported first.

## Main definitions

* `Slot`: the settings that have a value, with their option, variable and default.
* `Argument`: the forms of an argument.
* `Interruption`: why a command line does not lead to a run.
* `CommandLine.settings`: the settings of a command line.
* `CommandLine.help`, `CommandLine.version`: the texts shown on request.
-/

namespace AvroTypings

/-- The settings that take a value. -/
inductive Slot where
  | schemaDir
  | outDir
  | outFile
  deriving DecidableEq

namespace Slot

/-- All slots, in the order in which they are shown. -/
def all : List Slot := [schemaDir, outDir, outFile]

/-- The option that sets a slot, without its dashes. -/
def option : Slot → String
  | schemaDir => "schema-dir"
  | outDir => "out-dir"
  | outFile => "out-file"

/-- The environment variable that sets a slot. -/
def variableName : Slot → String
  | schemaDir => "SCHEMA_DIR"
  | outDir => "OUT_DIR"
  | outFile => "OUT_FILE"

/-- What a slot holds if nothing sets it. -/
def default : Slot → String
  | schemaDir => ({} : Settings).schemaDir.text
  | outDir => ({} : Settings).outDir.text
  | outFile => ({} : Settings).outFile.text

/-- What a slot is for. -/
def purpose : Slot → String
  | schemaDir => "Directory containing the `.avsc` schema files"
  | outDir => "Directory receiving the generated file"
  | outFile => "Output file; relative paths are placed inside the output directory"

/-- The slot that an option sets. -/
def ofOption? (name : String) : Option Slot := all.find? fun slot => slot.option == name

end Slot

/-- The values of environment variables, by the slot that they set. -/
abbrev Environment : Type := Slot → Option String

/-- Why a command line does not lead to a run. -/
inductive Interruption where
  | help
  | version
  /-- A value is missing or empty. -/
  | invalidValue
  /-- An option or flag is given twice. -/
  | argumentConflict
  /-- A flag is given a value. -/
  | tooManyValues
  /-- An argument is none of the options and flags. -/
  | unknownArgument
  deriving DecidableEq

namespace Interruption

/-- The exit code: a text shown on request is no failure. -/
def exitCode : Interruption → Nat
  | help | version => 0
  | invalidValue | argumentConflict | tooManyValues | unknownArgument => 2

end Interruption

/-- The forms of an argument. -/
inductive Argument where
  /-- The end of all options. -/
  | escape
  /-- An option or flag by its name, with the value behind an equals sign. -/
  | long (name : String) (value : Option String)
  /-- Flags by their letters. -/
  | short (first : Char) (others : List Char)
  | plain (text : String)
  deriving DecidableEq

namespace Argument

/-- A name, and the value behind the first equals sign. -/
def ofLong (letters : List Char) : Argument :=
  match letters.dropWhile (· ≠ '=') with
  | [] => long (String.ofList letters) none
  | _ :: value => long (String.ofList (letters.takeWhile (· ≠ '='))) (some (String.ofList value))

/-- The form of an argument. A single dash is plain. -/
def ofText (text : String) : Argument :=
  match text.toList with
  | ['-', '-'] => escape
  | '-' :: '-' :: letters => ofLong letters
  | '-' :: first :: others => short first others
  | _ => plain text

end Argument

namespace CommandLine

/-- What the arguments read so far have set. -/
structure State where
  /-- The slots that have a value. -/
  values : List (Slot × String) := []
  strict : Bool := false
  /-- The last option, with its value once that is read, while it is not accepted yet. -/
  pending : Option (Slot × Option String) := none

namespace State

/-- Accepts a value for a slot. -/
def assign (s : State) (slot : Slot) (value : String) : Except Interruption State :=
  if (s.values.lookup slot).isSome then .error .argumentConflict
  else if value.isEmpty then .error .invalidValue
  else .ok { s with values := s.values ++ [(slot, value)], pending := none }

/-- Accepts the pending option. -/
def settle (s : State) : Except Interruption State :=
  match s.pending with
  | none => .ok s
  | some (_, none) => .error .invalidValue
  | some (slot, some value) => s.assign slot value

/-- Reads an option, with the value given behind an equals sign. -/
def readOption (s : State) (slot : Slot) (value : Option String) : Except Interruption State := do
  let s ← s.settle
  match value with
  | none => return { s with pending := some (slot, none) }
  | some value => s.assign slot value

/-- Reads the flag for strict runs. -/
def readStrict (s : State) : Except Interruption State := do
  let s ← s.settle
  if s.strict then throw .argumentConflict else return { s with strict := true }

/-- Reads a flag that asks for a text. -/
def interrupt (s : State) (reason : Interruption) : Except Interruption State := do
  let _ ← s.settle
  throw reason

/-- Reads an option or flag by its name. -/
def readLong (s : State) (name : String) (value : Option String) : Except Interruption State :=
  match Slot.ofOption? name with
  | some slot => s.readOption slot value
  | none =>
    if name = "strict" || name = "help" || name = "version" then
      if value.isSome then .error .tooManyValues
      else if name = "strict" then s.readStrict
      else s.interrupt (if name = "help" then .help else .version)
    else .error .unknownArgument

/-- Reads a flag by its letter. -/
def readShort (s : State) (letter : Char) : Except Interruption State :=
  if letter = 'h' then s.interrupt .help
  else if letter = 'V' then s.interrupt .version
  else .error .unknownArgument

/-- Reads an argument that is neither an option nor a flag: the value of the option before it. -/
def readPlain (s : State) (text : String) : Except Interruption State :=
  match s.pending with
  | some (slot, none) => .ok { s with pending := some (slot, some text) }
  | _ => .error .unknownArgument

/-- Reads arguments. Nothing may follow the end of all options. -/
def read (s : State) : List String → Except Interruption State
  | [] => s.settle
  | text :: arguments => do
    match Argument.ofText text with
    | .escape => if arguments.isEmpty then s.settle else throw .unknownArgument
    | .long name value => (← s.readLong name value).read arguments
    | .short first _ => (← s.readShort first).read arguments
    | .plain text => (← s.readPlain text).read arguments

/-- The value of a slot: the one that an argument gave, else the one in the environment, else the
default. -/
def value (s : State) (environment : Environment) (slot : Slot) : Except Interruption String :=
  match s.values.lookup slot with
  | some value => .ok value
  | none =>
    match environment slot with
    | some value => if value.isEmpty then .error .invalidValue else .ok value
    | none => .ok slot.default

end State

/-- The settings of a command line. -/
def settings (arguments : List String) (environment : Environment) :
    Except Interruption Settings := do
  let s ← State.read {} arguments
  let schemaDir ← s.value environment .schemaDir
  let outDir ← s.value environment .outDir
  let outFile ← s.value environment .outFile
  return ⟨⟨schemaDir⟩, ⟨outDir⟩, ⟨outFile⟩, s.strict⟩

/-! ### Texts shown on request -/

/-- The name of the program. -/
def programName : String := "avscts"

/-- The name and version of the program. -/
def version : String := programName ++ " 0.1.0\n"

/-- A text that a terminal shows in bold. -/
def bold (text : String) : String := "\x1b[1m" ++ text ++ "\x1b[0m"

/-- The column at which descriptions start. -/
def descriptionColumn : Nat := 33

/-- An entry of the help text: what is typed, what stands for its value, and a description. -/
def helpEntry (lead typed value description : String) : String :=
  lead ++ bold typed ++ value
    ++ Text.spaces (descriptionColumn - (lead ++ typed ++ value).length)
    ++ Text.hanging descriptionColumn description ++ "\n"

/-- The entry of a slot. -/
def slotEntry (environment : Environment) (slot : Slot) : String :=
  helpEntry "      " ("--" ++ slot.option) (" <" ++ slot.variableName ++ ">")
    (slot.purpose ++ " [env: " ++ slot.variableName ++ "=" ++ (environment slot).getD ""
      ++ "] [default: " ++ slot.default ++ "]")

/-- The help text as a terminal gets it. -/
def styledHelp (environment : Environment) : String :=
  "Compile Avro schemas into TypeScript declarations\n\n" ++ bold "Usage:" ++ " "
    ++ bold programName ++ " [OPTIONS]\n\n" ++ bold "Options:" ++ "\n"
    ++ String.join (Slot.all.map (slotEntry environment))
    ++ helpEntry "      " "--strict" "" "Abort on duplicate names and unresolved type references"
    ++ helpEntry "  " "-h, --help" "" "Print help"
    ++ helpEntry "  " "-V, --version" "" "Print version"

/-- The help text. It shows the values that the environment has for slots, as far as they can be
shown; a terminal sequence left open in one of them ends at the next entry. -/
def help (environment : Environment) : String := Text.plain (styledHelp environment)

end CommandLine

end AvroTypings
