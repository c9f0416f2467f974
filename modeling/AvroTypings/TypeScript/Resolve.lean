import AvroTypings.Schema.Basic
import AvroTypings.Text.Blank
import AvroTypings.TypeScript.Declaration

/-!
# Type expressions

A schema resolves to a type expression. Records and enums cannot stand inside an expression; they
are hoisted into declarations, which are appended to those collected before, and the expression
refers to them by name. A record or enum without a name is named after the place where it stands,
its context.

A field whose type is a union with `null` becomes an optional property of the remaining type.

## Main definitions

* `nestedName`, `propertyContext`: the contexts of nested types.
* `Schema.isNullable`, `Schema.withoutNull`: optional fields and the type that is left of them.
* `Schema.resolve`: the type expression of a schema, and the declarations after it.
* `Schema.property`: the line of a field, and the declarations after it.
-/

namespace AvroTypings

/-- The name of a type nested in another, from the outer name and what distinguishes it. -/
def nestedName (parent token : String) : String := parent ++ token

/-- The context of a field of the record with the given name. -/
def propertyContext (parent field : String) : String := parent ++ "_" ++ field

/-- The type expression of a primitive type. -/
def Primitive.typeScript : Primitive → String
  | .string => "string"
  | .boolean => "boolean"
  | .bytes => "Uint8Array"
  | .null => "null"
  | .int | .long | .float | .double => "number"

namespace Schema

/-- Whether a schema is a union that has `null` among its members. -/
def isNullable : Schema → Bool
  | .union members => members.any isNull
  | _ => false

/-- What is left of a union without its `null` members: the only member that remains, or the union
of those that do. A union of nothing but `null` leaves `null`, and every other schema is left as it
is. -/
def withoutNull (schema : Schema) : Schema :=
  match schema with
  | .union members =>
    if members.any isNull then
      match members.filter fun member => !member.isNull with
      | [] => .primitive .null
      | [member] => member
      | members => .union members
    else .union members
  | schema => schema

theorem sizeOf_filter_le {α : Type} [SizeOf α] (p : α → Bool) (l : List α) :
    sizeOf (l.filter p) ≤ sizeOf l := by
  induction l with
  | nil => simp
  | cons a l ih =>
    simp only [List.filter_cons]
    split <;> simp only [List.cons.sizeOf_spec] <;> omega

theorem sizeOf_withoutNull_le (schema : Schema) : sizeOf schema.withoutNull ≤ sizeOf schema := by
  unfold withoutNull
  split
  · next members =>
    have hle := sizeOf_filter_le (fun member : Schema => !member.isNull) members
    split
    · split
      · cases members with
        | nil => contradiction
        | cons member members =>
          cases member <;> simp <;> omega
      · next h =>
        rw [h] at hle
        simp only [List.cons.sizeOf_spec, List.nil.sizeOf_spec, union.sizeOf_spec] at *
        omega
      · simp only [union.sizeOf_spec]
        omega
    · exact Nat.le_refl _
  · exact Nat.le_refl _

/-- The comment behind a field. Empty documentation leaves none. -/
def trailingComment (doc : Option String) : String :=
  match doc with
  | some text => if text.isEmpty then "" else " // " ++ Text.onOneLine text
  | none => ""

/-- The line of a field whose type has the given expression. -/
def propertyLine (field : Field) (type : String) : String :=
  "  " ++ field.name ++ (if field.schema.isNullable then "?" else "") ++ ": " ++ type ++ ";"
    ++ trailingComment field.doc

mutual

/-- The type expression of a schema in a context, and the declarations after those of `out` and
the hoisted ones. -/
def resolve (schema : Schema) (context : String) (out : List Declaration) :
    String × List Declaration :=
  match schema with
  | .primitive type => (type.typeScript, out)
  | .named name => (name, out)
  | .union members =>
    let resolved := resolveAll members context out
    (" | ".intercalate resolved.1.eraseDups, resolved.2)
  | .enum header symbols =>
    let name := header.name.getD (nestedName context "Enum")
    (name, out ++ [.enum name symbols])
  | .array items =>
    let item := resolve items (nestedName context "Item") out
    (item.1 ++ "[]", item.2)
  | .map values =>
    let value := resolve values (nestedName context "Value") out
    ("Record<string, " ++ value.1 ++ ">", value.2)
  | .record header fields =>
    let name := header.name.getD context
    let lines := properties fields name out
    (name, lines.2 ++ [.interface name lines.1])
  | .unknown _ => ("any", out)
termination_by sizeOf schema

/-- The type expressions of schemas in one context, and the declarations after them. -/
def resolveAll (schemas : List Schema) (context : String) (out : List Declaration) :
    List String × List Declaration :=
  match schemas with
  | [] => ([], out)
  | schema :: schemas =>
    let first := resolve schema context out
    let others := resolveAll schemas context first.2
    (first.1 :: others.1, others.2)
termination_by sizeOf schemas

/-- The line of a field of the record with the given name, and the declarations after it. -/
def property (field : Field) (parent : String) (out : List Declaration) :
    String × List Declaration :=
  let type := resolve field.schema.withoutNull (propertyContext parent field.name) out
  (propertyLine field type.1, type.2)
termination_by sizeOf field
decreasing_by
  have := sizeOf_withoutNull_le field.schema
  cases field
  simp only [FieldOf.mk.sizeOf_spec] at *
  omega

/-- The lines of the fields of the record with the given name, and the declarations after them. -/
def properties (fields : List Field) (parent : String) (out : List Declaration) :
    List String × List Declaration :=
  match fields with
  | [] => ([], out)
  | field :: fields =>
    let first := property field parent out
    let others := properties fields parent first.2
    (first.1 :: others.1, others.2)
termination_by sizeOf fields

end

end Schema

end AvroTypings
