import AvroTypings.CommandLine
import AvroTypings.Run.Basic

/-!
# The program

The program as a function: from its arguments, its environment and the disk to what it prints, its
exit code and the disk afterwards.

## Main definitions

* `Report`: what a program prints, and its exit code.
* `Report.ofRun`, `Report.ofInterruption`: the reports of a run and of a command line without one.
* `program`: the program.
-/

namespace AvroTypings

/-- What a program prints, and its exit code. -/
structure Report where
  exitCode : Nat
  output : String := ""
  errors : String := ""
  deriving DecidableEq

namespace Report

/-- The numbered lines of a chain of causes. -/
def numbered : Nat → List String → String
  | _, [] => ""
  | n, message :: messages =>
    "    " ++ toString n ++ ": " ++ Text.hanging 7 message ++ "\n" ++ numbered (n + 1) messages

/-- The report of an error, with the chain of its causes. -/
def ofError (settings : Settings) (e : RunError) : Report where
  exitCode := 1
  errors := "Error: generation from '" ++ settings.schemaDir.text ++ "' failed\n\nCaused by:\n"
    ++ numbered 0 (e.message :: e.causes)

/-- The report of a run that ended in the given way. -/
def ofRun (settings : Settings) (result : Except RunError Path) : Report :=
  match result with
  | .ok path => { exitCode := 0, output := "[OK] Wrote " ++ path.text ++ "\n" }
  | .error e => ofError settings e

/-- What is wrong with the use of a command line. -/
def misuse : Interruption → String
  | .invalidValue => "error: an option has no value, or an empty one\n"
  | .argumentConflict => "error: an option or flag is given more than once\n"
  | .tooManyValues => "error: a flag takes no value\n"
  | .unknownArgument => "error: an argument is unknown\n"
  | .help | .version => ""

/-- The report of a command line that does not lead to a run. -/
def ofInterruption (environment : Environment) (reason : Interruption) : Report where
  exitCode := reason.exitCode
  output :=
    match reason with
    | .help => CommandLine.help environment
    | .version => CommandLine.version
    | _ => ""
  errors := misuse reason

end Report

/-- The program: what it prints, and the disk afterwards. -/
def program (arguments : List String) (environment : Environment) (disk : Disk) :
    Report × Disk :=
  match CommandLine.settings arguments environment with
  | .error reason => (.ofInterruption environment reason, disk)
  | .ok settings =>
    let ended := runOnDisk settings disk
    (.ofRun settings ended.1.result, ended.2)

end AvroTypings
