import AvroTypings.Proofs.Sites

/-!
# What resolution hoists

Resolving a schema keeps the declarations collected before and appends one declaration for each
record and enum of the schema, in post-order. Which declarations these are does not depend on those
collected before, and neither does the type expression.

The invariant is stated for one schema at a time (`Schema.Hoists`). It passes from the members of a
union to the union, and from the types of fields without their `null` to the record; the sites of
such a type are those of the type as it stands, so nothing is lost on the way.

## Main definitions

* `Schema.Hoists`: how a schema resolves, in every context and after any declarations.

## Main results

* `Schema.hoists`: every schema resolves in this way.
* `Schema.expression_eq`: the type expression of a schema, from those of its parts.
* `Schema.resolve_hoists_in_postorder`: the declarations of a schema, one for each site.
-/

namespace AvroTypings.Schema

/-- A schema resolves to the same expression whatever was collected before, and appends the
declarations of its sites. -/
def Hoists (schema : Schema) : Prop :=
  ∀ context outer out, schema.resolve context out =
    (schema.expression context, out ++ (schema.sitesIn context outer).map Site.declaration)

theorem resolveAll_eq_of_hoists {members : List Schema} (h : ∀ member ∈ members, member.Hoists)
    (context : String) (outer : Option String) (out : List Declaration) :
    resolveAll members context out =
      (members.map (·.expression context),
        out ++ (listSites context outer members).map Site.declaration) := by
  induction members generalizing out with
  | nil => simp [resolveAll, listSites]
  | cons member members ih =>
    have hfirst := h member List.mem_cons_self context outer
    have hothers := ih fun other hmem => h other (List.mem_cons_of_mem member hmem)
    simp only [resolveAll, hfirst, hothers, listSites, List.map_cons, List.map_append,
      List.append_assoc]

theorem property_eq_of_hoists {field : Field} (h : field.schema.withoutNull.Hoists)
    (parent : String) (outer : Option String) (out : List Declaration) :
    property field parent out =
      (Site.line parent field,
        out ++ (field.schema.sitesIn (propertyContext parent field.name) outer).map
          Site.declaration) := by
  rw [property, h _ outer, sitesIn_withoutNull]
  rfl

theorem properties_eq_of_hoists {fields : List Field}
    (h : ∀ field ∈ fields, field.schema.withoutNull.Hoists)
    (parent : String) (outer : Option String) (out : List Declaration) :
    properties fields parent out =
      (fields.map (Site.line parent),
        out ++ (fieldSites parent outer fields).map Site.declaration) := by
  induction fields generalizing out with
  | nil => simp [properties, fieldSites]
  | cons field fields ih =>
    have hfirst := property_eq_of_hoists (h field List.mem_cons_self) parent outer
    have hothers := ih fun other hmem => h other (List.mem_cons_of_mem field hmem)
    simp only [properties, hfirst, hothers, fieldSites, List.map_cons, List.map_append,
      List.append_assoc]

/-- Every schema appends the declarations of its sites and nothing else. -/
theorem hoists (schema : Schema) : schema.Hoists := by
  induction schema with
  | primitive type => simp [Hoists, expression, resolve, sitesIn]
  | named name => simp [Hoists, expression, resolve, sitesIn]
  | unknown value => simp [Hoists, expression, resolve, sitesIn]
  | enum header symbols =>
    intro context outer out
    simp [expression, resolve, sitesIn, Site.declaration, Site.name]
  | array items ih =>
    intro context outer out
    have hitems := ih (nestedName context "Item") outer
    rw [expression, resolve, resolve, hitems out, hitems []]
    rfl
  | map values ih =>
    intro context outer out
    have hvalues := ih (nestedName context "Value") outer
    rw [expression, resolve, resolve, hvalues out, hvalues []]
    rfl
  | union members ih =>
    intro context outer out
    simp [expression, resolve, sitesIn, resolveAll_eq_of_hoists ih context outer]
  | record header fields _ ih =>
    intro context outer out
    have hfields := properties_eq_of_hoists ih (header.name.getD context) (header.scopeIn outer)
    simp [expression, resolve, sitesIn, hfields, Site.declaration, Site.name]

/-! ### Expressions -/

section Expression

variable (context : String)

/-- The expression of a schema, put together from those of its parts. -/
theorem expression_eq (schema : Schema) :
    schema.expression context =
      match schema with
      | .primitive type => type.typeScript
      | .named name => name
      | .unknown _ => "any"
      | .enum header _ => header.name.getD (nestedName context "Enum")
      | .record header _ => header.name.getD context
      | .array items => items.expression (nestedName context "Item") ++ "[]"
      | .map values =>
        "Record<string, " ++ values.expression (nestedName context "Value") ++ ">"
      | .union members => " | ".intercalate (members.map (·.expression context)).eraseDups := by
  cases schema with
  | union members =>
    rw [expression, resolve, resolveAll_eq_of_hoists (fun member _ => member.hoists) context none]
  | _ => simp [expression, resolve]

@[simp] theorem expression_primitive (type : Primitive) :
    (Schema.primitive type).expression context = type.typeScript :=
  expression_eq context _

@[simp] theorem expression_named (name : String) :
    (Schema.named name).expression context = name :=
  expression_eq context _

@[simp] theorem expression_unknown (value : Json) :
    (Schema.unknown value).expression context = "any" :=
  expression_eq context _

@[simp] theorem expression_enum (header : Header) (symbols : List String) :
    (Schema.enum header symbols).expression context =
      header.name.getD (nestedName context "Enum") :=
  expression_eq context _

@[simp] theorem expression_record (header : Header) (fields : List Field) :
    (Schema.record header fields).expression context = header.name.getD context :=
  expression_eq context _

@[simp] theorem expression_array (items : Schema) :
    (Schema.array items).expression context =
      items.expression (nestedName context "Item") ++ "[]" :=
  expression_eq context _

@[simp] theorem expression_map (values : Schema) :
    (Schema.map values).expression context =
      "Record<string, " ++ values.expression (nestedName context "Value") ++ ">" :=
  expression_eq context _

@[simp] theorem expression_union (members : List Schema) :
    (Schema.union members).expression context =
      " | ".intercalate (members.map (·.expression context)).eraseDups :=
  expression_eq context _

end Expression

/-- The expression of a record or enum is the name that it is declared under. -/
theorem expression_site (site : Site) : site.schema.expression site.context = site.name := by
  obtain ⟨context, outer, header, body⟩ := site
  cases body with
  | symbols symbols => exact expression_enum context header symbols
  | fields fields => exact expression_record context header fields

/-- The declarations hoisted from the fields of a record are those of the sites below it. -/
theorem properties_eq (fields : List Field) (parent : String) (outer : Option String)
    (out : List Declaration) :
    properties fields parent out =
      (fields.map (Site.line parent),
        out ++ (fieldSites parent outer fields).map Site.declaration) :=
  properties_eq_of_hoists (fun field _ => field.schema.withoutNull.hoists) parent outer out

/-- **Hoisting in post-order.** Resolving a schema keeps the declarations collected before and
appends those of its sites, and neither these nor the expression depend on what was collected
before. The expression of each site is the name of its declaration. The declarations hoisted from
the fields of a record stand right before the declaration of the record. -/
theorem resolve_hoists_in_postorder (schema : Schema) (context : String) :
    ∃ type : String,
      (∀ out, schema.resolve context out =
        (type, out ++ (schema.sites context).map Site.declaration)) ∧
      (∀ site ∈ schema.sites context,
        ∀ out, (site.schema.resolve site.context out).1 = site.declaration.name) ∧
      (∀ before site after fields, schema.sites context = before ++ site :: after →
        site.body = .fields fields →
        (properties fields site.declaration.name []).2 <:+ before.map Site.declaration) := by
  refine ⟨schema.expression context, schema.hoists context none, ?_, ?_⟩
  · intro site _ out
    rw [site.schema.hoists site.context none out, expression_site, Site.name_declaration]
  · intro before site after fields hsplit hbody
    have hbelow : site.below <:+ before :=
      schema.postOrdered_sitesIn context none before site after hsplit
    rw [Site.name_declaration, properties_eq fields site.name site.scope, List.nil_append]
    simpa only [Site.below, hbody] using hbelow.map Site.declaration

end AvroTypings.Schema
