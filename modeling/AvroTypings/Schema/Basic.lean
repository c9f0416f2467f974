import AvroTypings.Json.Basic

/-!
# Avro schemas

The schema trees that typings are made from. A schema is a primitive type, a reference to a
declared type, or built up as a union, an array, a map, an enum or a record. A value that has no
reading as one of these is kept as it is.

## Main definitions

* `Primitive`: the eight primitive types and their names.
* `Header`: what a record and an enum say about themselves.
* `FieldOf`, `Field`: the fields of a record.
* `Schema`: the trees; `Schema.ownName` is the name that a tree gives itself.
-/

namespace AvroTypings

/-- The primitive types. -/
inductive Primitive where
  | null
  | boolean
  | int
  | long
  | float
  | double
  | bytes
  | string
  deriving DecidableEq, Inhabited

namespace Primitive

/-- All primitive types. -/
def all : List Primitive := [null, boolean, int, long, float, double, bytes, string]

/-- The name of a primitive type in a schema. -/
def name : Primitive → String
  | null => "null"
  | boolean => "boolean"
  | int => "int"
  | long => "long"
  | float => "float"
  | double => "double"
  | bytes => "bytes"
  | string => "string"

/-- The primitive type with the given name. -/
def ofName? (name : String) : Option Primitive := all.find? fun p => p.name == name

/-- Whether the values of a primitive type are numbers. -/
def isNumeric : Primitive → Bool
  | int | long | float | double => true
  | _ => false

end Primitive

/-- What a record or an enum says about itself: its name, the namespace it is declared in, and its
documentation. -/
structure Header where
  name : Option String := none
  scope : Option String := none
  doc : Option String := none
  deriving DecidableEq, Inhabited

namespace Header

/-- Whether a name is dotted, that is, spells out its own namespace. -/
def isDotted (name : String) : Bool := name.toList.contains '.'

/-- The namespace, if it is not empty. -/
def scope? (h : Header) : Option String := h.scope.filter fun scope => !scope.isEmpty

/-- The name with its namespace in front, unless it is dotted or there is no namespace. -/
def qualifiedName (h : Header) : Option String :=
  h.name.map fun name =>
    match h.scope? with
    | some scope => if isDotted name then name else scope ++ "." ++ name
    | none => name

/-- A record or an enum as messages call it. -/
def label (h : Header) (kind : String) : String :=
  match h.name with
  | some name => kind ++ " '" ++ name ++ "'"
  | none => kind

end Header

/-- A field of a record, with its type given as a `σ`. -/
structure FieldOf (σ : Type) where
  name : String
  schema : σ
  doc : Option String := none
  deriving Inhabited

/-- An Avro schema. -/
inductive Schema where
  | primitive (type : Primitive)
  | named (name : String)
  | union (members : List Schema)
  | array (items : Schema)
  | map (values : Schema)
  | enum (header : Header) (symbols : List String)
  | record (header : Header) (fields : List (FieldOf Schema))
  | unknown (value : Json)
  deriving Inhabited

/-- A field of a record. -/
abbrev Field : Type := FieldOf Schema

namespace Schema

/-- The schema that a bare name denotes: a primitive type, or a reference. -/
def ofName (name : String) : Schema :=
  match Primitive.ofName? name with
  | some p => .primitive p
  | none => .named name

/-- The name that a schema gives itself. Only records, enums and unsupported objects can have
one. -/
def ownName : Schema → Option String
  | .record header _ => header.name
  | .enum header _ => header.name
  | .unknown (.object members) =>
    match members.lookup "name" with
    | some (.string name) => some name
    | _ => none
  | _ => none

/-- Whether a schema is the primitive type `null`. -/
def isNull : Schema → Bool
  | .primitive .null => true
  | _ => false

/-- Whether a schema is a union. -/
def isUnion : Schema → Bool
  | .union _ => true
  | _ => false

/-- Whether a schema is a record. -/
def isRecord : Schema → Bool
  | .record _ _ => true
  | _ => false

/-- Whether a schema is an enum. -/
def isEnum : Schema → Bool
  | .enum _ _ => true
  | _ => false

/-- Whether a schema is a value without a reading. -/
def isUnknown : Schema → Bool
  | .unknown _ => true
  | _ => false

end Schema

end AvroTypings
