import AvroTypings.Proofs.NamePaths
import AvroTypings.Proofs.RootExport

/-!
# What a context reaches

The context of a schema names the records and enums that have no name of their own. It flows through
unions, arrays, maps and the fields of records without a name, and ends at every record with a name,
whose fields are named after this record instead. So a schema resolves the same in all contexts if
no record or enum without a name can be reached before a record with a name. In every other schema
the context can be told from the declarations.

A document hands its name to its schema as the context. If the root is a record with a name, the
document has that name too, and its source does not show in its declarations.

## Main definitions

* `Schema.NeedsContext`: the context reaches a record or an enum without a name.

## Main results

* `Schema.resolve_eq_of_not_needsContext`: a schema that needs no context resolves the same in all.
* `Schema.context_eq_of_resolve_eq`: a schema that needs a context resolves differently in any two.
* `Document.declarations_eq_resolve`: the declarations of a document with a named record as root.
-/

namespace AvroTypings

namespace Schema

/-- A record or an enum without a name can be reached from the root without passing through a record
with a name. -/
def NeedsContext (schema : Schema) : Prop :=
  ∃ path node, Leads schema path node ∧ (∀ edge ∈ path, edge.leaves = none) ∧
    (node.isRecord = true ∨ node.isEnum = true) ∧ node.ownName = none

/-! ### Schemas that need no context -/

theorem needsContext_of_part {schema part : Schema} {edge : Edge}
    (hpart : (edge, part) ∈ schema.parts) (hleaves : edge.leaves = none) (h : part.NeedsContext) :
    schema.NeedsContext := by
  obtain ⟨path, node, hleads, hpath, hnode⟩ := h
  exact ⟨edge :: path, node, .step hpart hleads, List.forall_mem_cons.mpr ⟨hleaves, hpath⟩, hnode⟩

theorem needsContext_of_member {members : List Schema} {member : Schema} (hmem : member ∈ members)
    (h : member.NeedsContext) : (Schema.union members).NeedsContext := by
  obtain ⟨index, hindexed⟩ := exists_mem_zipIdx_iff.mpr hmem
  exact needsContext_of_part (List.mem_map_of_mem hindexed) rfl h

theorem not_needsContext_of_named {header : Header} {name : String}
    (hname : header.name = some name) (fields : List Field) :
    ¬ (Schema.record header fields).NeedsContext := by
  rintro ⟨path, node, hleads, hpath, -, hanonymous⟩
  cases hleads with
  | here => cases hname.symm.trans hanonymous
  | step hpart _ =>
    obtain ⟨field, -, heq⟩ := List.mem_map.mp hpart
    have hleaves := (List.forall_mem_cons.mp hpath).1
    rw [← (Prod.mk.inj heq).1] at hleaves
    cases hname.symm.trans hleaves

theorem resolveAll_congr_context {members : List Schema} {context context' : String}
    (h : ∀ member ∈ members, ∀ out, member.resolve context out = member.resolve context' out)
    (out : List Declaration) :
    resolveAll members context out = resolveAll members context' out := by
  induction members generalizing out with
  | nil => rw [resolveAll, resolveAll]
  | cons member members ih =>
    obtain ⟨hfirst, hothers⟩ := List.forall_mem_cons.mp h
    rw [resolveAll, resolveAll, hfirst out, ih hothers]

/-- A schema that needs no context resolves the same in all contexts. -/
theorem resolve_eq_of_not_needsContext {schema : Schema} (h : ¬ schema.NeedsContext)
    (context context' : String) (out : List Declaration) :
    schema.resolve context out = schema.resolve context' out := by
  induction schema generalizing context context' out with
  | primitive type => rw [resolve, resolve]
  | named name => rw [resolve, resolve]
  | unknown value => rw [resolve, resolve]
  | enum header symbols =>
    cases hname : header.name with
    | none => exact absurd ⟨[], _, .here, by simp, .inr rfl, hname⟩ h
    | some name => simp only [resolve, hname, Option.getD_some]
  | record header fields _ _ =>
    -- a name of its own replaces the context, so nothing is needed of the fields
    cases hname : header.name with
    | none => exact absurd ⟨[], _, .here, by simp, .inl rfl, hname⟩ h
    | some name => simp only [resolve, hname, Option.getD_some]
  | array items ih =>
    have hitems : ¬ items.NeedsContext := mt (needsContext_of_part List.mem_cons_self rfl) h
    rw [resolve, resolve, ih hitems (nestedName context "Item") (nestedName context' "Item")]
  | map values ih =>
    have hvalues : ¬ values.NeedsContext := mt (needsContext_of_part List.mem_cons_self rfl) h
    rw [resolve, resolve, ih hvalues (nestedName context "Value") (nestedName context' "Value")]
  | union members ih =>
    have hmembers : ∀ member ∈ members, ∀ out,
        member.resolve context out = member.resolve context' out := fun member hmem =>
      ih member hmem (mt (needsContext_of_member hmem) h) context context'
    rw [resolve, resolve, resolveAll_congr_context hmembers]

/-! ### Schemas that need a context -/

/-- The names of the sites of a schema, by their paths. -/
theorem map_name_sitesIn (schema : Schema) (context : String) (outer : Option String) :
    (schema.sitesIn context outer).map Site.name = schema.sitePaths.map fun place =>
      place.2.ownName.getD
        (contextAt context place.1 ++ if place.2.isEnum then "Enum" else "") := by
  have hsites := congrArg (List.map fun place : String × Schema =>
    place.2.ownName.getD (place.1 ++ if place.2.isEnum then "Enum" else ""))
    (schema.map_sitesIn_eq_map_sitePaths context outer)
  rw [List.map_map, List.map_map] at hsites
  exact (List.map_congr_left fun site _ => site.name_eq_getD).trans hsites

/-- In two contexts, a schema that needs a context is declared under two names. -/
theorem context_eq_of_resolve_eq {schema : Schema} (h : schema.NeedsContext)
    {context context' : String} {out : List Declaration}
    (heq : (schema.resolve context out).2 = (schema.resolve context' out).2) :
    context = context' := by
  obtain ⟨path, node, hleads, hpath, hsite, hanonymous⟩ := h
  have hplace : (path, node) ∈ schema.sitePaths :=
    mem_sitePaths_iff.mpr ⟨hleads, Bool.or_eq_true_iff.mpr hsite⟩
  rw [schema.hoists context none, schema.hoists context' none] at heq
  have hnames := congrArg (List.map Declaration.name) (List.append_cancel_left heq)
  rw [List.map_map, List.map_map] at hnames
  have hsites : (schema.sitesIn context none).map Site.name =
      (schema.sitesIn context' none).map Site.name := by
    simpa only [Function.comp_def, Site.name_declaration] using hnames
  rw [map_name_sitesIn, map_name_sitesIn] at hsites
  have hnode := List.map_inj_left.mp hsites (path, node) hplace
  simp only [hanonymous, Option.getD_none, contextAt_of_nearestNamed (.root hpath)] at hnode
  simpa using hnode

end Schema

/-! ### Documents -/

namespace Document

/-- A document whose root is a record with a name declares what the record hoists in any context. -/
theorem declarations_eq_resolve {header : Header} {name : String}
    (hname : header.name = some name) (fields : List Field) (source context : String) :
    (Document.mk source (.record header fields)).declarations =
      ((Schema.record header fields).resolve context []).2 := by
  have htakes : (Document.mk source (.record header fields)).TakesName := by
    refine ⟨⟨_, none, header, .fields fields⟩, List.mem_append_right _ List.mem_cons_self, ?_⟩
    simp [Site.name, Document.name, Schema.ownName, hname]
  rw [declarations_of_takesName htakes, resolved,
    Schema.resolve_eq_of_not_needsContext (Schema.not_needsContext_of_named hname fields) _ context]

end Document

/-- **Contexts.** If no record and no enum without a name can be reached from the root of a schema
without passing through a record with a name, then the schema resolves the same in all contexts, to
the same expression and with the same declarations. Otherwise its declarations are different in any
two contexts. A document whose root is a record with a name has the same declarations whatever its
source is, namely those of its schema in any context. -/
theorem Schema.context_shows_only_if_needed (schema : Schema) :
    (¬ schema.NeedsContext → ∀ context context' out,
      schema.resolve context out = schema.resolve context' out) ∧
    (schema.NeedsContext → ∀ context context' out,
      (schema.resolve context out).2 = (schema.resolve context' out).2 → context = context') ∧
    (schema.isRecord = true → schema.ownName ≠ none → ∀ source,
      (∀ source', (Document.mk source schema).declarations =
        (Document.mk source' schema).declarations) ∧
      ∀ context, (Document.mk source schema).declarations = (schema.resolve context []).2) := by
  refine ⟨resolve_eq_of_not_needsContext, fun h _ _ _ => context_eq_of_resolve_eq h, ?_⟩
  intro hrecord hnamed source
  cases schema with
  | record header fields =>
    obtain ⟨name, hname⟩ := Option.ne_none_iff_exists'.mp hnamed
    have hdeclarations := Document.declarations_eq_resolve hname fields
    exact ⟨fun source' => (hdeclarations source "").trans (hdeclarations source' "").symm,
      hdeclarations source⟩
  | _ => cases hrecord

end AvroTypings
