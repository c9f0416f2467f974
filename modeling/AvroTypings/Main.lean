import AvroTypings.Program

/-!
# Entry point

The program on the real file system. It enumerates the schema folder, reads the schema files in the
order of their names, runs on their documents while keeping the output, writes the output, and
prints the report.
-/

namespace AvroTypings.Shell

/-- The failure that an error of the operating system stands for. -/
def ioErrorOf (e : IO.Error) : IoError :=
  match e with
  | .noFileOrDirectory .. => .notFound
  | .alreadyExists .. => .alreadyExists
  | .inappropriateType _ code _ =>
    if code = 20 then .notADirectory else if code = 21 then .isADirectory else .other (toString e)
  | .invalidArgument _ code _ => if code = 36 then .nameTooLong else .other (toString e)
  | e => .other (toString e)

/-- The result of an action, with its error as a value. -/
def attempt {α : Type} (action : IO α) : IO (Except IoError α) := do
  try
    return .ok (← action)
  catch e =>
    return .error (ioErrorOf e)

/-- The values of the environment variables that set slots. -/
def environment : IO Environment := do
  let schemaDir ← IO.getEnv Slot.schemaDir.variableName
  let outDir ← IO.getEnv Slot.outDir.variableName
  let outFile ← IO.getEnv Slot.outFile.variableName
  return fun
    | .schemaDir => schemaDir
    | .outDir => outDir
    | .outFile => outFile

/-- The entries of a folder. No file is read, so files come without their contents. -/
def enumerate (folder : Path) : IO (List (String × FileTree)) := do
  let found ← { (← IO.currentDir) with toString := folder.text }.readDir
  found.toList.mapM fun entry => do
    match ← attempt entry.path.metadata with
    | .ok metadata =>
      return (entry.fileName, if metadata.type == .file then .file .empty else .directory [])
    | .error _ => return (entry.fileName, .directory [])

/-- The documents of the schema files with the given names, as `readDocuments` has them. A file is
only opened once those before it have their documents. -/
def readInOrder (folder : Path) : List String → IO (Trace RunError (List Document))
  | [] => return .done []
  | name :: names => do
    let path := folder.join ⟨name⟩
    let target := { (← IO.currentDir) with toString := path.text }
    match ← attempt (IO.FS.readBinFile target) with
    | .error e => return .fail (.read path e)
    | .ok contents =>
      let first := readDocument folder (name, contents)
      let others ← match first.result with
        | .ok _ => readInOrder folder names
        | .error _ => pure (.done [])
      return first.andThen fun document =>
        others.andThen fun documents => .done (document :: documents)

/-- The documents of a folder. -/
def load (folder : Path) : IO (Trace RunError (List Document)) := do
  match ← attempt (enumerate folder) with
  | .error e => return .fail (.read folder e)
  | .ok entries =>
    let names := (schemasAmong entries).map Prod.fst
    let documents ← readInOrder folder names
    return (Trace.report [.found names.length folder]).andThen fun _ => documents

/-- Keeps the output of a run. -/
def keep : Writer (Option String) := fun _ text _ => (.done (), some text)

/-- Writes a file, and first makes the directories it lies in. -/
def write (path : Path) (text : String) : IO Unit := do
  let target := { (← IO.currentDir) with toString := path.text }
  let parent := { target with toString := path.parent.text }
  if !path.parent.text.isEmpty then
    IO.FS.createDirAll parent
  IO.FS.writeFile target text

/-- A run on the real file system. -/
def execute (settings : Settings) : IO (Except RunError Path) := do
  let ended := runOn settings (← load settings.schemaDir) keep none
  match ended.1.result, ended.2 with
  | .ok path, some text =>
    match ← attempt (write path text) with
    | .ok () => return .ok path
    | .error e => return .error (.write path e)
  | result, _ => return result

/-- Prints a report and gives its exit code. -/
def emit (report : Report) : IO UInt32 := do
  IO.print report.output
  IO.eprint report.errors
  return report.exitCode.toUInt32

end AvroTypings.Shell

open AvroTypings in
/-- Runs the program on the given arguments. -/
def main (arguments : List String) : IO UInt32 := do
  let environment ← Shell.environment
  match CommandLine.settings arguments environment with
  | .error reason => Shell.emit (.ofInterruption environment reason)
  | .ok settings => Shell.emit (.ofRun settings (← Shell.execute settings))
