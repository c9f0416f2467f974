import AvroTypings.Event
import AvroTypings.Schema.Decode
import AvroTypings.TypeScript.Resolve

/-!
# Documents

A document is a schema together with the source it was read from. It is named after its schema or,
if the schema gives itself no name, after its source, and it always exports a declaration of that
name.

## Main definitions

* `Document.stem`: the name of the source, without directories and the schema extension.
* `Document.name`: the name of the document.
* `Document.declarations`, `Document.collisions`: its exports, and the names exported again.
* `Document.render`: the text of its exports.
* `Document.events`: what is reported while that text is made.
-/

namespace AvroTypings

/-- A schema and the source it was read from. -/
structure Document where
  source : String
  schema : Schema
  deriving Inhabited

namespace Document

/-- The extension of a schema file. -/
def fileExtension : String := "avsc"

/-- The document of a text. -/
def parse (source text : String) : Except DecodeError Document :=
  (Schema.parse text).map fun schema => ⟨source, schema⟩

/-- Slashes of either kind separate directories in a source. -/
def isSeparator (c : Char) : Bool := c == '/' || c == '\\'

/-- What follows the last separator. -/
def lastPiece (source : List Char) : List Char :=
  (source.reverse.takeWhile fun c => !isSeparator c).reverse

/-- A name without the schema extension and its dot. -/
def stripExtension (name : List Char) : List Char :=
  let suffix := '.' :: fileExtension.toList
  if suffix.isSuffixOf name then name.take (name.length - suffix.length) else name

/-- The name of the source of a document: its last piece, without the schema extension. -/
def stem (d : Document) : String := String.ofList (stripExtension (lastPiece d.source.toList))

/-- The name of a document. -/
def name (d : Document) : String := d.schema.ownName.getD d.stem

/-- The type expression of the schema in the context of the document's name, and the declarations
hoisted from it. -/
def resolved (d : Document) : String × List Declaration := d.schema.resolve d.name []

/-- The exports of a document: the hoisted declarations and, unless one of them has the name of the
document, an alias of that name. -/
def declarations (d : Document) : List Declaration :=
  if d.resolved.2.any fun declaration => declaration.name == d.name then d.resolved.2
  else d.resolved.2 ++ [.typeAlias d.name d.resolved.1]

/-- The names at those positions of a list that are already seen or stand at an earlier position. -/
def repeatedNames (seen : List String) : List String → List String
  | [] => []
  | name :: names =>
    if seen.contains name then name :: repeatedNames seen names
    else repeatedNames (name :: seen) names

/-- The names that a document exports again. -/
def collisions (d : Document) : List String := repeatedNames [] (d.declarations.map (·.name))

/-- The text of a document's exports. -/
def render (d : Document) : String :=
  "// Generated from " ++ d.source ++ ". Do not edit manually.\n"
    ++ "\n\n".intercalate (d.declarations.map Declaration.render) ++ "\n"

/-- What is reported while the declarations of a document are made. -/
def warnings (d : Document) : List Event := d.collisions.map (.repeated d.source ·)

/-- What is reported while the text of a document is made. -/
def events (d : Document) : List Event :=
  d.warnings ++ [.declared d.source d.declarations.length]

end Document

end AvroTypings
