import AvroTypings.Schema.Decode

/-!
# Defects of a schema

A schema that decodes may still repeat a symbol of an enum or a field of a record. The check walks
over the schema from left to right and stops at the first repetition. References that nothing
declares are a defect too, but one that only a set of documents can tell; it is found elsewhere and
shares the wording given here.

## Main definitions

* `SchemaError`: the defects, with their wording.
* `Schema.check`: the first repetition in a schema.
-/

namespace AvroTypings

/-- What is wrong with a schema. -/
inductive SchemaError where
  /-- There is no schema to begin with. -/
  | decode (error : DecodeError)
  | duplicateSymbol (enum symbol : String)
  | duplicateField (record field : String)
  | unresolved (name : String)

namespace SchemaError

/-- The wording of a defect. -/
def message : SchemaError → String
  | decode error => "parse error: " ++ error.message
  | duplicateSymbol enum symbol => "duplicate symbol '" ++ symbol ++ "' in enum '" ++ enum ++ "'"
  | duplicateField record field => "duplicate field '" ++ field ++ "' in record '" ++ record ++ "'"
  | unresolved name => "unresolved type reference '" ++ name ++ "'"

end SchemaError

namespace Schema

/-- Checks that no symbol is among those seen or repeated. -/
def checkSymbols (enum : String) (seen : List String) : List String → Except SchemaError Unit
  | [] => .ok ()
  | symbol :: symbols =>
    if seen.contains symbol then .error (.duplicateSymbol enum symbol)
    else checkSymbols enum (symbol :: seen) symbols

mutual

/-- Checks a schema for repeated symbols and fields. A record or enum without a name is reported
under the empty name. -/
def check : Schema → Except SchemaError Unit
  | .record header fields => checkFields (header.name.getD "") [] fields
  | .enum header symbols => checkSymbols (header.name.getD "") [] symbols
  | .union members => checkAll members
  | .array items => check items
  | .map values => check values
  | .primitive _ => .ok ()
  | .named _ => .ok ()
  | .unknown _ => .ok ()

/-- Checks schemas one after the other. -/
def checkAll : List Schema → Except SchemaError Unit
  | [] => .ok ()
  | schema :: schemas =>
    match check schema with
    | .error e => .error e
    | .ok () => checkAll schemas

/-- Checks the fields of a record: each name against those seen, and then its type. -/
def checkFields (record : String) (seen : List String) : List Field → Except SchemaError Unit
  | [] => .ok ()
  | ⟨name, schema, _⟩ :: fields =>
    if seen.contains name then .error (.duplicateField record name)
    else
      match check schema with
      | .error e => .error e
      | .ok () => checkFields record (name :: seen) fields

end

end Schema

end AvroTypings
