import AvroTypings.Proofs.Hoisting
import AvroTypings.Run.Basic

/-!
# References and exports

The strict check of documents collects the names that records and enums declare, with the namespace
in front where one is in force, and looks up every reference among them. The exports of a document
come from another walk over its schema, which knows nothing of namespaces. This file compares the
two through the sites of the schema: what is declared at a site is what the declaration of the site
answers to, so the strict check lets through exactly those documents whose references all have an
export.

## Main definitions

* `Site.Answers`: the references that the declaration of a site answers.
* `Exports`: the references that the exports of documents answer.

## Main results

* `Schema.mem_references_iff`: the references of a schema are the names that occur in it.
* `Schema.mem_declaredIn_iff`: the names declared in a schema are those that its sites answer.
* `strict_check_succeeds_iff`: the strict check succeeds exactly if every schema is valid and every
  reference has an export.
-/

namespace AvroTypings

/-! ### What a declaration answers -/

/-- The declaration of a site that has a name answers a reference to the name and, unless the name
is dotted, a reference to the name behind the namespace in force at the site. -/
structure Site.Answers (site : Site) (reference : String) : Prop where
  named : site.header.name = some site.declaration.name
  spelled : reference = site.declaration.name ∨
    Header.isDotted site.declaration.name = false ∧
      ∃ scope, site.scope = some scope ∧ reference = scope ++ "." ++ site.declaration.name

/-- The exports of some document have a hoisted declaration that answers the reference. -/
def Exports (documents : List Document) (reference : String) : Prop :=
  ∃ document ∈ documents, ∃ site ∈ document.schema.sites document.name,
    site.declaration ∈ document.resolved.2 ∧ site.declaration ∈ document.declarations ∧
      site.Answers reference

theorem Site.name_eq {site : Site} {name : String} (h : site.header.name = some name) :
    site.name = name := by
  unfold Site.name
  rw [h]
  split <;> rfl

/-- The names that a record or enum declares are the references that its declaration answers. -/
theorem Site.mem_declares_iff {site : Site} {reference : String} :
    reference ∈ site.header.declares site.outer ↔ site.Answers reference := by
  unfold Header.declares
  cases hname : site.header.name with
  | none => exact iff_of_false List.not_mem_nil fun h => nomatch hname.symm.trans h.named
  | some name =>
    have hdeclared : site.declaration.name = name := by
      rw [Site.name_declaration, Site.name_eq hname]
    have hanswers : site.Answers reference ↔ reference = name ∨ Header.isDotted name = false ∧
        ∃ scope, site.scope = some scope ∧ reference = scope ++ "." ++ name := by
      rw [← hdeclared]
      exact ⟨Answers.spelled, fun h => ⟨hname.trans (congrArg some hdeclared.symm), h⟩⟩
    rw [hanswers, Site.scope]
    cases site.header.scopeIn site.outer with
    | none => simp
    | some scope => cases hdotted : Header.isDotted name <;> simp [hdotted]

/-! ### Declared names and references of a schema -/

namespace Schema

theorem listDeclaredIn_eq_flatMap (outer : Option String) (schemas : List Schema) :
    listDeclaredIn outer schemas = schemas.flatMap (declaredIn outer) :=
  eq_flatMap_of_cons rfl (fun _ _ => rfl) schemas

theorem fieldsDeclaredIn_eq_flatMap (outer : Option String) (fields : List Field) :
    fieldsDeclaredIn outer fields = fields.flatMap fun field => field.schema.declaredIn outer :=
  eq_flatMap_of_cons rfl (fun _ _ => rfl) fields

theorem listReferences_eq_flatMap (schemas : List Schema) :
    listReferences schemas = schemas.flatMap references :=
  eq_flatMap_of_cons rfl (fun _ _ => rfl) schemas

theorem fieldsReferences_eq_flatMap (fields : List Field) :
    fieldsReferences fields = fields.flatMap fun field => field.schema.references :=
  eq_flatMap_of_cons rfl (fun _ _ => rfl) fields

/-- The references of a schema are the names that occur in it. -/
theorem mem_references_iff {schema : Schema} {reference : String} :
    reference ∈ schema.references ↔ Occurs (.named reference) schema := by
  induction schema with
  | primitive type => simp [references]
  | named name => simp [references]
  | unknown value => simp [references]
  | enum header symbols => simp [references]
  | array items ih => simp [references, ih]
  | map values ih => simp [references, ih]
  | union members ih =>
    rw [references, listReferences_eq_flatMap, List.mem_flatMap, occurs_union]
    simpa using exists_congr fun member => and_congr_right fun hmem => ih member hmem
  | record header fields ih _ =>
    rw [references, fieldsReferences_eq_flatMap, List.mem_flatMap, occurs_record]
    simpa using exists_congr fun field => and_congr_right fun hmem => ih field hmem

theorem mem_flatMap_iff_of_answers {α : Type} {names : α → List String} {sites : α → List Site}
    {l : List α} {reference : String}
    (h : ∀ a ∈ l, (reference ∈ names a ↔ ∃ site ∈ sites a, site.Answers reference)) :
    reference ∈ l.flatMap names ↔ ∃ site ∈ l.flatMap sites, site.Answers reference := by
  simp only [List.mem_flatMap]
  constructor
  · rintro ⟨a, ha, hname⟩
    obtain ⟨site, hsite, hanswers⟩ := (h a ha).mp hname
    exact ⟨site, ⟨a, ha, hsite⟩, hanswers⟩
  · rintro ⟨site, ⟨a, ha, hsite⟩, hanswers⟩
    exact ⟨a, ha, (h a ha).mpr ⟨site, hsite, hanswers⟩⟩

/-- The names declared in a schema are those that its sites answer. The context that the sites are
named after does not matter, since only sites with a name of their own answer. -/
theorem mem_declaredIn_iff {schema : Schema} {reference : String} (context : String)
    (outer : Option String) :
    reference ∈ schema.declaredIn outer ↔
      ∃ site ∈ schema.sitesIn context outer, site.Answers reference := by
  induction schema generalizing context outer with
  | primitive type => simp [declaredIn, sitesIn]
  | named name => simp [declaredIn, sitesIn]
  | unknown value => simp [declaredIn, sitesIn]
  | enum header symbols =>
    have hown := @Site.mem_declares_iff ⟨context, outer, header, .symbols symbols⟩ reference
    simpa [declaredIn, sitesIn] using hown
  | array items ih => exact ih _ outer
  | map values ih => exact ih _ outer
  | union members ih =>
    rw [declaredIn, sitesIn, listDeclaredIn_eq_flatMap, listSites_eq_flatMap]
    exact mem_flatMap_iff_of_answers fun member hmem => ih member hmem context outer
  | record header fields ih _ =>
    have hown := @Site.mem_declares_iff ⟨context, outer, header, .fields fields⟩ reference
    have hfields := mem_flatMap_iff_of_answers fun field hmem =>
      ih field hmem (propertyContext (header.name.getD context) field.name) (header.scopeIn outer)
    rw [declaredIn, sitesIn, fieldsDeclaredIn_eq_flatMap, fieldSites_eq_flatMap, List.mem_append,
      hown, hfields]
    simp only [List.mem_append, List.mem_singleton, or_and_right, exists_or, exists_eq_left]
    exact or_comm

end Schema

/-! ### The exports of documents -/

/-- The declarations of the sites of a document are hoisted, and they are exported. -/
theorem Document.declaration_mem {document : Document} {site : Site}
    (h : site ∈ document.schema.sites document.name) :
    site.declaration ∈ document.resolved.2 ∧ site.declaration ∈ document.declarations := by
  have hhoisted : site.declaration ∈ document.resolved.2 := by
    rw [resolved, document.schema.hoists document.name none []]
    exact List.mem_map_of_mem h
  refine ⟨hhoisted, ?_⟩
  unfold declarations
  split
  · exact hhoisted
  · exact List.mem_append_left _ hhoisted

/-- The names that documents declare together are those that their exports answer. -/
theorem mem_declaredBy_iff {documents : List Document} {reference : String} :
    reference ∈ declaredBy documents ↔ Exports documents reference := by
  rw [declaredBy, List.mem_flatMap]
  constructor
  · rintro ⟨document, hmem, hdeclared⟩
    obtain ⟨site, hsite, hanswers⟩ := (Schema.mem_declaredIn_iff document.name none).mp hdeclared
    obtain ⟨hhoisted, hexported⟩ := Document.declaration_mem hsite
    exact ⟨document, hmem, site, hsite, hhoisted, hexported, hanswers⟩
  · rintro ⟨document, hmem, site, hsite, -, -, hanswers⟩
    have hdeclared := (Schema.mem_declaredIn_iff document.name none).mpr ⟨site, hsite, hanswers⟩
    exact ⟨document, hmem, hdeclared⟩

/-! ### The strict check -/

/-- Nothing is missing in a document whose references are all among the given names. The names
that the document declares itself have to be given too. -/
theorem Document.missing_eq_nil_iff {document : Document} {declared : List String}
    (hown : document.schema.declared ⊆ declared) :
    document.missing declared = [] ↔
      ∀ reference, Schema.Occurs (.named reference) document.schema → reference ∈ declared := by
  simp only [missing, Schema.unresolved, List.filter_eq_nil_iff, List.mem_eraseDups,
    List.mem_filter, Schema.mem_references_iff]
  constructor
  · intro h reference hoccurs
    by_cases hdeclared : reference ∈ document.schema.declared
    · exact hown hdeclared
    · simpa using h reference ⟨hoccurs, by simpa using hdeclared⟩
  · rintro h reference ⟨hoccurs, -⟩
    simpa using h reference hoccurs

theorem result_inspectDocument_strict_eq_ok {document : Document} {declared : List String} :
    (inspectDocument true declared document).result = .ok () ↔
      document.schema.check = .ok () ∧ document.missing declared = [] := by
  unfold inspectDocument
  rw [if_pos rfl]
  cases document.schema.check with
  | error e => simp [Trace.fail]
  | ok =>
    cases document.missing declared with
    | nil => simp [Trace.done]
    | cons name names => simp

/-- The check of documents one after the other succeeds exactly if each of them does. -/
theorem result_inspectEach_eq_ok {strict : Bool} {declared : List String}
    {documents : List Document} :
    (inspectEach strict declared documents).result = .ok () ↔
      ∀ document ∈ documents, (inspectDocument strict declared document).result = .ok () := by
  induction documents with
  | nil => simp [inspectEach, Trace.done]
  | cons document documents ih =>
    rw [inspectEach, Trace.result_andThen_eq_ok, List.forall_mem_cons, ← ih]
    constructor
    · rintro ⟨_, hfirst, hothers⟩
      exact ⟨hfirst, hothers⟩
    · rintro ⟨hfirst, hothers⟩
      exact ⟨(), hfirst, hothers⟩

/-- **References and exports.** The strict check of documents succeeds if and only if every schema
is valid and, for every reference that occurs in one of them, some document exports a declaration
that answers it. -/
theorem strict_check_succeeds_iff (documents : List Document) :
    (inspectDocuments true documents).result = .ok () ↔
      ∀ document ∈ documents, document.schema.check = .ok () ∧
        ∀ reference, Schema.Occurs (.named reference) document.schema →
          Exports documents reference := by
  rw [inspectDocuments, result_inspectEach_eq_ok]
  refine forall_congr' fun document => forall_congr' fun hmem => ?_
  have hown : document.schema.declared ⊆ declaredBy documents := by
    intro name hname
    exact List.mem_flatMap.mpr ⟨document, hmem, hname⟩
  rw [result_inspectDocument_strict_eq_ok, Document.missing_eq_nil_iff hown]
  simp only [mem_declaredBy_iff]

end AvroTypings
