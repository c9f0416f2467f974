import AvroTypings.Path

/-!
# Events

What a run reports along the way. An event is data: it says what happened, and its level and
wording follow from that.

## Main definitions

* `Level`: how much an event matters.
* `Event`: the events of a run.
-/

namespace AvroTypings

/-- How much an event matters. -/
inductive Level where
  | info
  | debug
  | warn
  deriving DecidableEq

/-- An event of a run. -/
inductive Event where
  /-- A folder was searched for schema files. -/
  | found (count : Nat) (folder : Path)
  /-- The text of a schema file is about to be read as a schema. -/
  | parsing (file : String)
  /-- A document refers to a type that nothing declares. -/
  | unresolved (source name : String)
  /-- A document exports one name more than once. -/
  | repeated (source name : String)
  /-- The declarations of a document are complete. -/
  | declared (source : String) (count : Nat)
  /-- The sections of an output are complete. -/
  | assembled (count : Nat)
  /-- A file was written. -/
  | wrote (bytes : Nat) (path : Path)
  /-- A run is complete. -/
  | generated (count : Nat) (path : Path)
  deriving DecidableEq

namespace Event

/-- The level of an event. -/
def level : Event → Level
  | found .. => .info
  | parsing .. => .debug
  | unresolved .. => .warn
  | repeated .. => .warn
  | declared .. => .debug
  | assembled .. => .info
  | wrote .. => .debug
  | generated .. => .info

/-- The wording of an event. -/
def message : Event → String
  | found count folder => "found " ++ toString count ++ " schema file(s) in " ++ folder.text
  | parsing file => "parsing " ++ file
  | unresolved source name => source ++ ": unresolved type reference '" ++ name ++ "'"
  | repeated source name => source ++ ": declaration '" ++ name ++ "' is emitted more than once"
  | declared source count => source ++ ": " ++ toString count ++ " declaration(s)"
  | assembled count => "assembled " ++ toString count ++ " section(s)"
  | wrote bytes path => "wrote " ++ toString bytes ++ " bytes to " ++ path.text
  | generated count path => "generated " ++ toString count ++ " document(s) into " ++ path.text

end Event

end AvroTypings
