import AvroTypings.Document

/-!
# Bundles

The typings of several documents in one text: a banner that says where they come from, and a titled
section for each document.

## Main definitions

* `Banner`: the first lines of a bundle.
* `Document.titled`: the titled text of a document.
* `bundle`, `bundleEvents`: the text of a bundle, and what is reported while it is made.
-/

namespace AvroTypings

/-- Where a bundle comes from and what it is called. -/
structure Banner where
  source : String
  output : String
  deriving DecidableEq

/-- The text of a banner. -/
def Banner.render (b : Banner) : String :=
  "// Generated from Avro schemas in " ++ b.source ++ "\n// Single-file output: " ++ b.output
    ++ "\n"

/-- The title line of a document's part of a bundle. -/
def Document.title (d : Document) : String :=
  "// ===== " ++ d.name ++ " (from " ++ d.source ++ ") =====\n"

/-- The part of a bundle that belongs to a document. -/
def Document.titled (d : Document) : String := d.title ++ d.render

/-- The typings of several documents in one text. -/
def bundle (banner : Banner) (documents : List Document) : String :=
  banner.render ++ "\n" ++ "\n".intercalate (documents.map Document.titled)

/-- What is reported while the text of a bundle is made. -/
def bundleEvents (documents : List Document) : List Event :=
  documents.flatMap Document.events ++ [.assembled documents.length]

end AvroTypings
