import AvroTypings.Schema.Names
import AvroTypings.TypeScript.Resolve

/-!
# The records and enums of a schema

A record or an enum of a schema is a *site*: the node itself, the context that it is named after if
it has no name, and the namespace in force around it. This file lists the sites of a schema from
left to right, each record behind the sites of its own fields. The list is made from the schema as
it stands. It knows nothing of optional fields, of expressions or of declared names, so that the
different walks over a schema can be compared with it, and through it with each other.

## Main definitions

* `Schema.Occurs`: the nodes of a schema.
* `Site`: a record or enum with the place where it stands.
* `Site.declaration`: the declaration that is made from a site.
* `Schema.sitesIn`, `Schema.sites`: the sites of a schema in post-order.
* `PostOrdered`: every record of a list of sites comes right behind those of its own fields.

## Main results

* `Schema.induction`: induction over schemas, through the members of unions and the fields of
  records, with and without their `null`.
* `Schema.sitesIn_withoutNull`: making a field optional loses no site.
* `Schema.postOrdered_sitesIn`: the sites of a schema are in post-order.
-/

namespace AvroTypings

namespace Schema

/-! ### Induction over schemas -/

theorem sizeOf_schema_lt {field : Field} {fields : List Field} (h : field ∈ fields) :
    sizeOf field.schema < sizeOf fields := by
  have hmem := List.sizeOf_lt_of_mem h
  obtain ⟨name, schema, doc⟩ := field
  simp only [FieldOf.mk.sizeOf_spec] at hmem ⊢
  omega

/-- Induction over a schema. A field of a record may be used with its type as it stands, and with
what is left of the type without `null`. -/
@[elab_as_elim, induction_eliminator]
theorem induction {motive : Schema → Prop}
    (primitive : ∀ type, motive (.primitive type))
    (named : ∀ name, motive (.named name))
    (union : ∀ members, (∀ member ∈ members, motive member) → motive (.union members))
    (array : ∀ items, motive items → motive (.array items))
    (map : ∀ values, motive values → motive (.map values))
    (enum : ∀ header symbols, motive (.enum header symbols))
    (record : ∀ header fields, (∀ field ∈ fields, motive field.schema) →
      (∀ field ∈ fields, motive field.schema.withoutNull) → motive (.record header fields))
    (unknown : ∀ value, motive (.unknown value)) :
    ∀ schema, motive schema := by
  intro schema
  induction hsize : sizeOf schema using Nat.strongRecOn generalizing schema with
  | _ size ih =>
    subst hsize
    have smaller (t : Schema) (h : sizeOf t < sizeOf schema) : motive t := ih _ h t rfl
    cases schema with
    | primitive type => exact primitive type
    | named name => exact named name
    | union members =>
      refine union members fun member hmem => smaller member ?_
      have := List.sizeOf_lt_of_mem hmem
      simp only [Schema.union.sizeOf_spec]
      omega
    | array items => exact array items (smaller items (by simp))
    | map values => exact map values (smaller values (by simp))
    | enum header symbols => exact enum header symbols
    | record header fields =>
      refine record header fields (fun field hmem => smaller _ ?_) fun field hmem => smaller _ ?_
      · have := sizeOf_schema_lt hmem
        simp only [Schema.record.sizeOf_spec]
        omega
      · have := sizeOf_schema_lt hmem
        have := sizeOf_withoutNull_le field.schema
        simp only [Schema.record.sizeOf_spec]
        omega
    | unknown value => exact unknown value

/-! ### Nodes -/

/-- A schema occurs in another one: it is the other one, or occurs in a part of it. -/
inductive Occurs (node : Schema) : Schema → Prop
  | self : Occurs node node
  | union {members : List Schema} {member : Schema} (hmem : member ∈ members)
      (h : Occurs node member) : Occurs node (.union members)
  | array {items : Schema} (h : Occurs node items) : Occurs node (.array items)
  | map {values : Schema} (h : Occurs node values) : Occurs node (.map values)
  | record {header : Header} {fields : List Field} {field : Field} (hmem : field ∈ fields)
      (h : Occurs node field.schema) : Occurs node (.record header fields)

theorem Occurs.trans {inner middle outer : Schema} (h : Occurs inner middle)
    (h' : Occurs middle outer) : Occurs inner outer := by
  induction h' with
  | self => exact h
  | union hmem _ ih => exact .union hmem ih
  | array _ ih => exact .array ih
  | map _ ih => exact .map ih
  | record hmem _ ih => exact .record hmem ih

section Occurs

variable {node : Schema}

@[simp] theorem occurs_primitive {type : Primitive} :
    Occurs node (.primitive type) ↔ node = .primitive type := by
  constructor
  · rintro ⟨⟩
    rfl
  · rintro rfl
    exact .self

@[simp] theorem occurs_named {name : String} : Occurs node (.named name) ↔ node = .named name := by
  constructor
  · rintro ⟨⟩
    rfl
  · rintro rfl
    exact .self

@[simp] theorem occurs_unknown {value : Json} :
    Occurs node (.unknown value) ↔ node = .unknown value := by
  constructor
  · rintro ⟨⟩
    rfl
  · rintro rfl
    exact .self

@[simp] theorem occurs_enum {header : Header} {symbols : List String} :
    Occurs node (.enum header symbols) ↔ node = .enum header symbols := by
  constructor
  · rintro ⟨⟩
    rfl
  · rintro rfl
    exact .self

@[simp] theorem occurs_array {items : Schema} :
    Occurs node (.array items) ↔ node = .array items ∨ Occurs node items := by
  constructor
  · rintro (_ | _ | h)
    · exact .inl rfl
    · exact .inr h
  · rintro (rfl | h)
    · exact .self
    · exact .array h

@[simp] theorem occurs_map {values : Schema} :
    Occurs node (.map values) ↔ node = .map values ∨ Occurs node values := by
  constructor
  · rintro (_ | _ | _ | h)
    · exact .inl rfl
    · exact .inr h
  · rintro (rfl | h)
    · exact .self
    · exact .map h

@[simp] theorem occurs_union {members : List Schema} :
    Occurs node (.union members) ↔
      node = .union members ∨ ∃ member ∈ members, Occurs node member := by
  constructor
  · rintro (_ | ⟨hmem, h⟩)
    · exact .inl rfl
    · exact .inr ⟨_, hmem, h⟩
  · rintro (rfl | ⟨member, hmem, h⟩)
    · exact .self
    · exact .union hmem h

@[simp] theorem occurs_record {header : Header} {fields : List Field} :
    Occurs node (.record header fields) ↔
      node = .record header fields ∨ ∃ field ∈ fields, Occurs node field.schema := by
  constructor
  · rintro (_ | _ | _ | _ | ⟨hmem, h⟩)
    · exact .inl rfl
    · exact .inr ⟨_, hmem, h⟩
  · rintro (rfl | ⟨field, hmem, h⟩)
    · exact .self
    · exact .record hmem h

end Occurs

/-- The type expression of a schema in a context. -/
def expression (schema : Schema) (context : String) : String := (schema.resolve context []).1

end Schema

/-! ### Sites -/

/-- What a record or an enum is made of. -/
inductive Body where
  | symbols (symbols : List String)
  | fields (fields : List Field)

/-- A record or an enum, the context it is named after if it has no name, and the namespace in
force around it. -/
structure Site where
  context : String
  outer : Option String
  header : Header
  body : Body

namespace Site

/-- The record or enum itself. -/
def schema (site : Site) : Schema :=
  match site.body with
  | .symbols symbols => .enum site.header symbols
  | .fields fields => .record site.header fields

/-- The name that a site is declared under. -/
def name (site : Site) : String :=
  match site.body with
  | .symbols _ => site.header.name.getD (nestedName site.context "Enum")
  | .fields _ => site.header.name.getD site.context

/-- The namespace in force at a site. -/
def scope (site : Site) : Option String := site.header.scopeIn site.outer

/-- The line of a field of the record with the given name. -/
def line (parent : String) (field : Field) : String :=
  Schema.propertyLine field
    (field.schema.withoutNull.expression (propertyContext parent field.name))

/-- The declaration of a site: a constant with the symbols of an enum, or an interface with a line
for each field of a record. -/
def declaration (site : Site) : Declaration :=
  match site.body with
  | .symbols symbols => .enum site.name symbols
  | .fields fields => .interface site.name (fields.map (line site.name))

@[simp] theorem name_declaration (site : Site) : site.declaration.name = site.name := by
  unfold declaration
  split <;> rfl

end Site

namespace Schema

mutual

/-- The sites of a schema in post-order, in the given context and below the given namespace. -/
def sitesIn (context : String) (outer : Option String) : Schema → List Site
  | .record header fields =>
    fieldSites (header.name.getD context) (header.scopeIn outer) fields
      ++ [⟨context, outer, header, .fields fields⟩]
  | .enum header symbols => [⟨context, outer, header, .symbols symbols⟩]
  | .union members => listSites context outer members
  | .array items => sitesIn (nestedName context "Item") outer items
  | .map values => sitesIn (nestedName context "Value") outer values
  | .primitive _ => []
  | .named _ => []
  | .unknown _ => []

/-- The sites of schemas that stand in one context. -/
def listSites (context : String) (outer : Option String) : List Schema → List Site
  | [] => []
  | schema :: schemas => sitesIn context outer schema ++ listSites context outer schemas

/-- The sites of the types of fields of the record with the given name. -/
def fieldSites (parent : String) (outer : Option String) : List Field → List Site
  | [] => []
  | ⟨name, schema, _⟩ :: fields =>
    sitesIn (propertyContext parent name) outer schema ++ fieldSites parent outer fields

end

/-- The sites of a schema that stands in no namespace. -/
def sites (schema : Schema) (context : String) : List Site := schema.sitesIn context none

end Schema

/-- The sites of the fields of a record. An enum has no fields. -/
def Site.below (site : Site) : List Site :=
  match site.body with
  | .symbols _ => []
  | .fields fields => Schema.fieldSites site.name site.scope fields

namespace Schema

theorem listSites_eq_flatMap (context : String) (outer : Option String) (schemas : List Schema) :
    listSites context outer schemas = schemas.flatMap (sitesIn context outer) :=
  eq_flatMap_of_cons rfl (fun _ _ => rfl) schemas

theorem fieldSites_eq_flatMap (parent : String) (outer : Option String) (fields : List Field) :
    fieldSites parent outer fields = fields.flatMap fun field =>
      field.schema.sitesIn (propertyContext parent field.name) outer :=
  eq_flatMap_of_cons rfl (fun _ _ => rfl) fields

theorem eq_null_of_isNull {schema : Schema} (h : schema.isNull = true) :
    schema = .primitive .null := by
  unfold isNull at h
  split at h
  · rfl
  · contradiction

/-! ### Optional fields -/

/-- A `null` among the members of a union has no site. -/
theorem listSites_filter_not_isNull (context : String) (outer : Option String)
    (members : List Schema) :
    listSites context outer (members.filter fun member => !member.isNull) =
      listSites context outer members := by
  induction members with
  | nil => rfl
  | cons member members ih =>
    by_cases h : member.isNull
    · rw [List.filter_cons_of_neg (by simp [h]), ih, listSites, eq_null_of_isNull h, sitesIn,
        List.nil_append]
    · rw [List.filter_cons_of_pos (by simp [h]), listSites, listSites, ih]

/-- A type and what is left of it without `null` have the same sites, in the same places. -/
theorem sitesIn_withoutNull (context : String) (outer : Option String) (schema : Schema) :
    schema.withoutNull.sitesIn context outer = schema.sitesIn context outer := by
  unfold withoutNull
  split
  · next members =>
    have hfilter := listSites_filter_not_isNull context outer members
    split
    · split
      · next h =>
        rw [h] at hfilter
        exact hfilter
      · next member h =>
        rw [h, listSites, listSites, List.append_nil] at hfilter
        exact hfilter
      · exact hfilter
    · rfl
  · rfl

end Schema

/-! ### Post-order -/

/-- Every record of the list comes right behind the sites of its own fields. -/
def PostOrdered (sites : List Site) : Prop :=
  ∀ before site after, sites = before ++ site :: after → site.below <:+ before

namespace PostOrdered

theorem nil : PostOrdered [] := by
  intro before site after h
  simp at h

theorem append {xs ys : List Site} (hx : PostOrdered xs) (hy : PostOrdered ys) :
    PostOrdered (xs ++ ys) := by
  intro before site after h
  rcases List.append_eq_append_iff.mp h with ⟨middle, rfl, hys⟩ | ⟨middle, rfl, hys⟩
  · exact (hy middle site after hys).trans (List.suffix_append xs middle)
  · cases middle with
    | nil =>
      have hnil := hy [] site after hys.symm
      rw [List.suffix_nil.mp hnil]
      exact List.nil_suffix
    | cons first rest =>
      obtain ⟨rfl, -⟩ := List.cons.inj hys
      exact hx before site rest rfl

theorem flatMap {α : Type} {f : α → List Site} {l : List α} (h : ∀ a ∈ l, PostOrdered (f a)) :
    PostOrdered (l.flatMap f) := by
  induction l with
  | nil => exact nil
  | cons a l ih =>
    rw [List.flatMap_cons]
    exact (h a List.mem_cons_self).append (ih fun b hb => h b (List.mem_cons_of_mem a hb))

/-- A record behind the sites of its fields. -/
theorem below_append (site : Site) (h : PostOrdered site.below) :
    PostOrdered (site.below ++ [site]) := by
  intro before other after hsplit
  rcases List.append_eq_append_iff.mp hsplit with ⟨middle, rfl, hend⟩ | ⟨middle, hbelow, hend⟩
  · cases middle with
    | nil =>
      obtain ⟨rfl, -⟩ := List.cons.inj hend
      simp only [List.append_nil, List.suffix_rfl]
    | cons first rest => simp at hend
  · cases middle with
    | nil =>
      obtain ⟨rfl, -⟩ := List.cons.inj hend
      simp only [hbelow, List.append_nil, List.suffix_rfl]
    | cons first rest =>
      obtain ⟨rfl, -⟩ := List.cons.inj hend
      exact h before other rest hbelow

end PostOrdered

theorem Schema.postOrdered_sitesIn (schema : Schema) (context : String) (outer : Option String) :
    PostOrdered (schema.sitesIn context outer) := by
  induction schema generalizing context outer with
  | primitive type => exact .nil
  | named name => exact .nil
  | union members ih =>
    rw [sitesIn, listSites_eq_flatMap]
    exact .flatMap fun member hmem => ih member hmem context outer
  | array items ih => exact ih _ _
  | map values ih => exact ih _ _
  | enum header symbols => exact .below_append ⟨context, outer, header, .symbols symbols⟩ .nil
  | record header fields ih _ =>
    refine .below_append ⟨context, outer, header, .fields fields⟩ ?_
    change PostOrdered (fieldSites _ _ fields)
    rw [fieldSites_eq_flatMap]
    exact .flatMap fun field hmem => ih field hmem _ _
  | unknown value => exact .nil

end AvroTypings
