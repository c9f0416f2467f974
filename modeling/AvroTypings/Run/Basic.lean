import AvroTypings.Run.Folder
import AvroTypings.Schema.Names
import AvroTypings.Settings

/-!
# Runs

A run loads documents, checks them against each other, bundles their typings and hands the text to
a writer. What the writer does to the world around it is up to the writer: a run on a disk stores
the text in a file.

A lenient run only warns about references that no document declares. A strict run stops at the
first document with a repetition or such a reference.

## Main definitions

* `declaredBy`: the names that documents declare together.
* `Document.missing`: the references of a document that are not among given names.
* `inspectDocuments`: the check of documents.
* `Writer`: what takes the output.
* `runOn`, `runOnDisk`: a run on given documents with any writer, and a run on a disk.
-/

namespace AvroTypings

/-- The names that documents declare together. -/
def declaredBy (documents : List Document) : List String :=
  documents.flatMap fun document => document.schema.declared

/-- The references of a document that neither the document nor any of the given names resolves. -/
def Document.missing (d : Document) (declared : List String) : List String :=
  d.schema.unresolved.filter fun name => !declared.contains name

/-- The check of a document, among documents that together declare the given names. -/
def inspectDocument (strict : Bool) (declared : List String) (d : Document) :
    Trace RunError Unit :=
  if strict then
    match d.schema.check with
    | .error e => .fail (.invalid d.source e)
    | .ok () =>
      match d.missing declared with
      | [] => .done ()
      | name :: _ => ⟨.error (.invalid d.source (.unresolved name)), [.unresolved d.source name]⟩
  else .report ((d.missing declared).map (.unresolved d.source ·))

/-- The check of documents one after the other. -/
def inspectEach (strict : Bool) (declared : List String) : List Document → Trace RunError Unit
  | [] => .done ()
  | d :: documents =>
    (inspectDocument strict declared d).andThen fun _ => inspectEach strict declared documents

/-- The check of documents that may refer to each other. -/
def inspectDocuments (strict : Bool) (documents : List Document) : Trace RunError Unit :=
  inspectEach strict (declaredBy documents) documents

/-- What takes the output of a run: from a path and a text, and from the state of the world, it
yields how the writing ended and the state afterwards. -/
abbrev Writer (σ : Type) : Type := Path → String → σ → Trace RunError Unit × σ

/-- The documents of a run, once they are checked and their typings are bundled. -/
def prepare (settings : Settings) (loaded : Trace RunError (List Document)) :
    Trace RunError (List Document) :=
  loaded.andThen fun documents =>
    (inspectDocuments settings.strict documents).andThen fun _ =>
      (Trace.report (bundleEvents documents)).andThen fun _ => .done documents

/-- A run on the documents of `loaded`. The output is not handed to the writer unless it is
complete. -/
def runOn {σ : Type} (settings : Settings) (loaded : Trace RunError (List Document))
    (writer : Writer σ) (state : σ) : Trace RunError Path × σ :=
  let prepared := prepare settings loaded
  match prepared.result with
  | .error e => (⟨.error e, prepared.events⟩, state)
  | .ok documents =>
    let path := settings.target
    let written := writer path (bundle settings.banner documents) state
    (prepared.andThen fun _ => written.1.andThen fun _ =>
        (Trace.report [.generated documents.length path]).andThen fun _ => .done path,
      written.2)

/-- The writer that stores the output in a file. -/
def diskWriter : Writer Disk := fun path text disk =>
  let stored := disk.store path text.toUTF8
  match stored.1 with
  | .ok () => (.report [.wrote text.utf8ByteSize path], stored.2)
  | .error e => (.fail (.write path e), stored.2)

/-- A run on the schema files of a disk. -/
def runOnDisk (settings : Settings) (disk : Disk) : Trace RunError Path × Disk :=
  runOn settings (loadFolder settings.schemaDir disk) diskWriter disk

end AvroTypings
