import AvroTypings.Schema.Basic

/-!
# Declared names and references

A record or enum with a name declares that name, and also the name with its namespace in front if
the name does not spell out a namespace itself. The namespace is inherited from the enclosing
record where none is given. A reference is unresolved in a schema if nothing in the schema declares
it, before or after the reference.

## Main definitions

* `Header.scopeIn`: the namespace in force at and below a record or enum.
* `Header.declares`: the names that a record or enum declares.
* `Schema.declared`, `Schema.references`: the names that a schema declares and refers to.
* `Schema.unresolved`: the references that the schema does not declare.
-/

namespace AvroTypings

namespace Header

/-- What stands before the last dot of a dotted name. -/
def dotPrefix (name : String) : String :=
  String.ofList ((name.toList.reverse.dropWhile (· ≠ '.')).drop 1).reverse

/-- The namespace in force at and below a record or enum: the one that its name spells out, else
its own, else the one in force around it. -/
def scopeIn (h : Header) (outer : Option String) : Option String :=
  match h.name with
  | some name => if isDotted name then some (dotPrefix name) else h.scope?.or outer
  | none => h.scope?.or outer

/-- The names that a record or enum declares. -/
def declares (h : Header) (outer : Option String) : List String :=
  match h.name with
  | none => []
  | some name =>
    match h.scopeIn outer with
    | some scope => if isDotted name then [name] else [name, scope ++ "." ++ name]
    | none => [name]

end Header

namespace Schema

mutual

/-- The names that a schema declares below the given namespace. -/
def declaredIn (outer : Option String) : Schema → List String
  | .record header fields =>
    header.declares outer ++ fieldsDeclaredIn (header.scopeIn outer) fields
  | .enum header _ => header.declares outer
  | .union members => listDeclaredIn outer members
  | .array items => declaredIn outer items
  | .map values => declaredIn outer values
  | .primitive _ => []
  | .named _ => []
  | .unknown _ => []

/-- The names that schemas declare below the given namespace. -/
def listDeclaredIn (outer : Option String) : List Schema → List String
  | [] => []
  | schema :: schemas => declaredIn outer schema ++ listDeclaredIn outer schemas

/-- The names that the types of fields declare below the given namespace. -/
def fieldsDeclaredIn (outer : Option String) : List Field → List String
  | [] => []
  | ⟨_, schema, _⟩ :: fields => declaredIn outer schema ++ fieldsDeclaredIn outer fields

end

mutual

/-- The references in a schema, from left to right. -/
def references : Schema → List String
  | .named name => [name]
  | .record _ fields => fieldsReferences fields
  | .union members => listReferences members
  | .array items => references items
  | .map values => references values
  | .primitive _ => []
  | .enum _ _ => []
  | .unknown _ => []

/-- The references in schemas, from left to right. -/
def listReferences : List Schema → List String
  | [] => []
  | schema :: schemas => references schema ++ listReferences schemas

/-- The references in the types of fields, from left to right. -/
def fieldsReferences : List Field → List String
  | [] => []
  | ⟨_, schema, _⟩ :: fields => references schema ++ fieldsReferences fields

end

/-- The names that a schema declares. -/
def declared (s : Schema) : List String := s.declaredIn none

/-- The references that a schema does not declare itself, each once, in the order in which they
first appear. -/
def unresolved (s : Schema) : List String :=
  let declared := s.declared
  (s.references.filter fun name => !declared.contains name).eraseDups

end Schema

end AvroTypings
