import AvroTypings.Disk
import AvroTypings.Document
import AvroTypings.Run.Trace

/-!
# Schema folders

The documents of a folder are its schema files, in the order of their names, whatever the order in
which the folder enumerates its entries.

## Main definitions

* `schemasAmong`: the schema files among the entries of a folder.
* `readDocuments`, `readTexts`: the documents of schema files and of given texts.
* `loadEntries`, `loadFolder`: the documents of a folder.
* `typingsOfText`, `typingsOfFile`: the typings of a single text or file.
-/

namespace AvroTypings

/-- The contents of a schema file. Only a file with the schema extension is one. -/
def schemaFile? (entry : String × FileTree) : Option (String × ByteArray) :=
  match entry.2 with
  | .file contents =>
    if Path.extensionOf entry.1 = some Document.fileExtension then some (entry.1, contents)
    else none
  | .directory _ => none

/-- The schema files among the entries of a folder, in the order of their names. -/
def schemasAmong (entries : List (String × FileTree)) : List (String × ByteArray) :=
  (entries.filterMap schemaFile?).mergeSort fun a b => a.1 ≤ b.1

/-- The document of a schema file in a folder. -/
def readDocument (folder : Path) (file : String × ByteArray) : Trace RunError Document :=
  match Disk.decodeText file.2 with
  | .error e => .fail (.read (folder.join ⟨file.1⟩) e)
  | .ok text =>
    (Trace.report [.parsing file.1]).andThen fun _ =>
      match Document.parse file.1 text with
      | .error e => .fail (.parse file.1 e)
      | .ok document => .done document

/-- The documents of schema files in a folder, up to the first that is none. -/
def readDocuments (folder : Path) :
    List (String × ByteArray) → Trace RunError (List Document)
  | [] => .done []
  | file :: files =>
    (readDocument folder file).andThen fun document =>
      (readDocuments folder files).andThen fun documents => .done (document :: documents)

/-- The documents of texts with their sources, up to the first that is none. Nothing is reported. -/
def readTexts : List (String × String) → Trace RunError (List Document)
  | [] => .done []
  | (source, text) :: texts =>
    match Document.parse source text with
    | .error e => .fail (.parse source e)
    | .ok document => (readTexts texts).andThen fun documents => .done (document :: documents)

/-- The documents of a folder whose entries were enumerated with the given result. -/
def loadEntries (folder : Path) (entries : Except IoError (List (String × FileTree))) :
    Trace RunError (List Document) :=
  match entries with
  | .error e => .fail (.read folder e)
  | .ok entries =>
    (Trace.report [.found (schemasAmong entries).length folder]).andThen fun _ =>
      readDocuments folder (schemasAmong entries)

/-- The entries of a folder that can be reached by a path through it. -/
def withinReach (folder : Path) (entries : List (String × FileTree)) : List (String × FileTree) :=
  entries.filter fun entry => (folder.join ⟨entry.1⟩).fault?.isNone

/-- The documents of a folder on a disk. -/
def loadFolder (folder : Path) (disk : Disk) : Trace RunError (List Document) :=
  loadEntries folder ((disk.entries folder).map (withinReach folder))

/-! ### Single files -/

/-- Why a single text or file has no typings. -/
inductive TypingsError where
  | decode (cause : DecodeError)
  | io (cause : IoError)

namespace TypingsError

/-- The wording of an error. -/
def message : TypingsError → String
  | decode cause => "schema parse error: " ++ cause.message
  | io cause => "IO error: " ++ cause.message

end TypingsError

/-- The typings of a text. -/
def typingsOfText (source text : String) : Trace TypingsError String :=
  match Document.parse source text with
  | .error e => .fail (.decode e)
  | .ok document => ⟨.ok document.render, document.events⟩

/-- The typings of a file, under its name or, if its path ends in none, under the path. -/
def typingsOfFile (path : Path) (disk : Disk) : Trace TypingsError String :=
  match disk.readText path with
  | .error e => .fail (.io e)
  | .ok text => typingsOfText (path.fileName.getD path.text) text

end AvroTypings
