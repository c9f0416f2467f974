import AvroTypings.Proofs.Hoisting
import Mathlib.Data.List.Forall2

/-!
# Namespaces and documentation

Namespaces and documentation annotate a schema without taking part in its types. This file removes
them from all records, enums and fields of a schema. The bare schema resolves to the same expression
and hoists the same declarations, except that the lines of its interfaces end where the
documentation of a field would follow as a comment.

The two resolutions are compared declaration by declaration. Lines are plain texts, in which the
start of a comment cannot be found again, so they are related by what is appended to one of them.

## Main definitions

* `Schema.bare`: a schema without namespaces and documentation.
* `AddsComment`, `Declaration.AddsComments`: lines and declarations that agree up to comments.

## Main results

* `Schema.withoutNull_bare`: the type of an optional field, without its annotations.
* `Schema.expression_bare`: the expression of a schema does not show its annotations.
* `Site.line_bare`: the line of a field is that of the bare field and a comment.
* `Schema.bare_resolves_alike`: the resolutions of a schema and the bare one.
-/

namespace AvroTypings

/-- A header without namespace and documentation. -/
def Header.bare (header : Header) : Header := { name := header.name }

namespace Schema

mutual

/-- A schema without its namespaces and documentation. -/
def bare : Schema → Schema
  | .record header fields => .record header.bare (fieldsBare fields)
  | .enum header symbols => .enum header.bare symbols
  | .union members => .union (listBare members)
  | .array items => .array (bare items)
  | .map values => .map (bare values)
  | .primitive type => .primitive type
  | .named name => .named name
  | .unknown value => .unknown value

/-- Schemas without their namespaces and documentation. -/
def listBare : List Schema → List Schema
  | [] => []
  | schema :: schemas => bare schema :: listBare schemas

/-- Fields without their documentation, and with bare types. -/
def fieldsBare : List Field → List Field
  | [] => []
  | ⟨name, schema, _⟩ :: fields => ⟨name, bare schema, none⟩ :: fieldsBare fields

end

/-- A field without its documentation, and with a bare type. -/
def fieldBare (field : Field) : Field := ⟨field.name, field.schema.bare, none⟩

end Schema

/-- A line agrees with another one, or adds a comment to it. -/
def AddsComment (line bare : String) : Prop := line = bare ∨ ∃ text, line = bare ++ " // " ++ text

/-- A declaration agrees with another one in kind, name and symbols, and has the same lines up to
comments at their ends. -/
inductive Declaration.AddsComments : Declaration → Declaration → Prop
  | enum {name : String} {symbols : List String} :
      AddsComments (.enum name symbols) (.enum name symbols)
  | interface {name : String} {lines bareLines : List String}
      (h : List.Forall₂ AddsComment lines bareLines) :
      AddsComments (.interface name lines) (.interface name bareLines)

namespace Schema

theorem listBare_eq_map (schemas : List Schema) : listBare schemas = schemas.map bare :=
  eq_map_of_cons rfl (fun _ _ => rfl) schemas

theorem fieldsBare_eq_map (fields : List Field) : fieldsBare fields = fields.map fieldBare :=
  eq_map_of_cons rfl (fun _ _ => rfl) fields

/-! ### Optional fields -/

@[simp] theorem isNull_bare (schema : Schema) : schema.bare.isNull = schema.isNull := by
  cases schema <;> rfl

theorem any_isNull_bare (members : List Schema) :
    (listBare members).any isNull = members.any isNull := by
  simp [listBare_eq_map, Function.comp_def]

@[simp] theorem isNullable_bare (schema : Schema) : schema.bare.isNullable = schema.isNullable := by
  cases schema with
  | union members => exact any_isNull_bare members
  | _ => rfl

/-- Leaving out `null` and removing annotations do not depend on each other. -/
theorem withoutNull_bare (schema : Schema) : schema.bare.withoutNull = schema.withoutNull.bare := by
  cases schema with
  | union members =>
    have hfilter : (listBare members).filter (fun member => !member.isNull) =
        (members.filter fun member => !member.isNull).map bare := by
      simp [listBare_eq_map, List.filter_map, Function.comp_def]
    simp only [bare, withoutNull, any_isNull_bare, hfilter]
    split
    · cases members.filter fun member => !member.isNull with
      | nil => rfl
      | cons first rest =>
        cases rest with
        | nil => rfl
        | cons second rest => simp only [List.map_cons, bare, listBare_eq_map]
    · rw [bare]
  | _ => rfl

/-! ### Expressions and lines -/

/-- The expression of a schema does not show its annotations. -/
theorem expression_bare (schema : Schema) (context : String) :
    schema.bare.expression context = schema.expression context := by
  induction schema generalizing context with
  | primitive type => rfl
  | named name => rfl
  | unknown value => rfl
  | enum header symbols => rw [bare, expression_enum, expression_enum, Header.bare]
  | record header fields _ _ => rw [bare, expression_record, expression_record, Header.bare]
  | array items ih => rw [bare, expression_array, expression_array, ih]
  | map values ih => rw [bare, expression_map, expression_map, ih]
  | union members ih =>
    rw [bare, expression_union, expression_union, listBare_eq_map, List.map_map]
    exact congrArg (fun texts : List String => " | ".intercalate texts.eraseDups)
      (List.map_congr_left fun member hmem => ih member hmem context)

end Schema

/-- The line of a field is that of the bare field with the comment behind it. -/
theorem Site.line_bare (parent : String) (field : Field) :
    line parent field =
      line parent (Schema.fieldBare field) ++ Schema.trailingComment field.doc := by
  simp only [line, Schema.propertyLine, Schema.fieldBare, Schema.withoutNull_bare,
    Schema.expression_bare, Schema.isNullable_bare, Schema.trailingComment, String.append_empty]

theorem addsComment_line (parent : String) (field : Field) :
    AddsComment (Site.line parent field) (Site.line parent (Schema.fieldBare field)) := by
  rw [AddsComment, Site.line_bare parent field]
  unfold Schema.trailingComment
  split
  · split
    · exact .inl String.append_empty
    · exact .inr ⟨_, String.append_assoc.symm⟩
  · exact .inl String.append_empty

/-! ### Declarations -/

theorem forall₂_flatMap {α β : Type} {r : β → β → Prop} {l : List α} {f g : α → List β}
    (h : ∀ a ∈ l, List.Forall₂ r (f a) (g a)) : List.Forall₂ r (l.flatMap f) (l.flatMap g) :=
  List.rel_flatMap (List.forall₂_same.mpr h) fun _ _ hab => hab

namespace Schema

/-- The declarations of a schema are those of the bare schema with comments, whatever the namespaces
around the two. -/
theorem addsComments_sitesIn (schema : Schema) (context : String) (outer outer' : Option String) :
    List.Forall₂ Declaration.AddsComments ((schema.sitesIn context outer).map Site.declaration)
      ((schema.bare.sitesIn context outer').map Site.declaration) := by
  induction schema generalizing context outer outer' with
  | primitive type => exact .nil
  | named name => exact .nil
  | unknown value => exact .nil
  | enum header symbols => exact .cons .enum .nil
  | array items ih => exact ih _ _ _
  | map values ih => exact ih _ _ _
  | union members ih =>
    simp only [bare, sitesIn, listBare_eq_map, listSites_eq_flatMap, List.flatMap_map,
      List.map_flatMap]
    exact forall₂_flatMap fun member hmem => ih member hmem _ _ _
  | record header fields ih _ =>
    simp only [bare, sitesIn, fieldsBare_eq_map, fieldSites_eq_flatMap, List.flatMap_map,
      List.map_append, List.map_flatMap]
    refine List.rel_append (forall₂_flatMap fun field hmem => ih field hmem _ _ _)
      (.cons (.interface ?_) .nil)
    -- the lines of both interfaces are made from the same fields
    rw [List.map_map, List.forall₂_map_left_iff, List.forall₂_map_right_iff, List.forall₂_same]
    exact fun field _ => addsComment_line _ field

/-- **Namespaces and documentation.** A schema and the schema without its namespaces and
documentation resolve to the same expression. They append equally many declarations, and these agree
one by one in kind, name and symbols. The lines of an interface are those of the bare one, each
followed by nothing or by a comment. -/
theorem bare_resolves_alike (schema : Schema) (context : String) :
    ∃ type hoisted bareHoisted,
      (∀ out, schema.resolve context out = (type, out ++ hoisted)) ∧
      (∀ out, schema.bare.resolve context out = (type, out ++ bareHoisted)) ∧
      List.Forall₂ Declaration.AddsComments hoisted bareHoisted := by
  refine ⟨_, _, _, schema.hoists context none, fun out => ?_,
    schema.addsComments_sitesIn context none none⟩
  rw [schema.bare.hoists context none out, expression_bare]

end Schema

end AvroTypings
