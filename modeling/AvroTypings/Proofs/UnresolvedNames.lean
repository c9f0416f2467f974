import AvroTypings.Proofs.NamePaths
import AvroTypings.Proofs.Namespaces
import AvroTypings.Proofs.Strictness
import Mathlib.Logic.Relation

/-!
# Unresolved names

The unresolved names of a schema are found in two passes, one for what is declared and one for what
is referred to. So it does not matter where a declaration stands, and the order of fields and
members only shows in the order of the names. This file says where a name first appears by the paths
of the schema in document order, and what rearranging a schema does to the two passes.

## Main definitions

* `Schema.Precedes`, `Schema.AppearsBefore`: document order, and names by their first appearance in
  it.
* `Schema.referencePaths`: the references of a schema from left to right, with their paths.
* `Schema.Rearranges`: one change of the order of the fields of a record or the members of a union.

## Main results

* `Schema.pairwise_referencePaths`: the references of a schema are listed in document order.
* `Schema.pairwise_unresolved`: the unresolved names are listed by first appearance.
* `Schema.declared_and_unresolved_names`: the declared and the unresolved names of a schema.
-/

namespace AvroTypings

namespace Schema

/-- A path to a node comes before a path to another node in document order: where the two part, it
enters a part further to the left. -/
def Precedes (path other : List Edge) : Prop := path.map Edge.index < other.map Edge.index

/-- A name appears before another one: some reference to it precedes all references to the other. -/
def AppearsBefore (schema : Schema) (name other : String) : Prop :=
  ∃ path, Leads schema path (.named name) ∧
    ∀ path', Leads schema path' (.named other) → Precedes path path'

/-- One rearrangement: the members of a union or the fields of a record are permuted, somewhere in
a schema. -/
inductive Rearranges : Schema → Schema → Prop
  | members {members others : List Schema} (h : members.Perm others) :
      Rearranges (.union members) (.union others)
  | fields {header : Header} {fields others : List Field} (h : fields.Perm others) :
      Rearranges (.record header fields) (.record header others)
  | inMember {before after : List Schema} {member other : Schema} (h : Rearranges member other) :
      Rearranges (.union (before ++ member :: after)) (.union (before ++ other :: after))
  | inItems {items other : Schema} (h : Rearranges items other) :
      Rearranges (.array items) (.array other)
  | inValues {values other : Schema} (h : Rearranges values other) :
      Rearranges (.map values) (.map other)
  | inField {header : Header} {before after : List Field} {field : Field} {other : Schema}
      (h : Rearranges field.schema other) :
      Rearranges (.record header (before ++ field :: after))
        (.record header (before ++ { field with schema := other } :: after))

/-! ### References in document order -/

/-- The name that a node refers to. -/
def reference? : Schema → Option String
  | .named name => some name
  | _ => none

theorem reference?_eq_some_iff {node : Schema} {name : String} :
    node.reference? = some name ↔ node = .named name := by
  cases node <;> simp [reference?]

/-- The references of a schema from left to right, each with the path to it. -/
def referencePaths (schema : Schema) : List (List Edge × String) := schema.placesOf reference?

/-- The references of a schema are those of its parts and its own. -/
theorem references_eq_parts (schema : Schema) :
    schema.references =
      (schema.parts.flatMap fun part => part.2.references) ++ schema.reference?.toList := by
  cases schema with
  | union members =>
    rw [references, listReferences_eq_flatMap, parts, List.flatMap_map]
    exact (flatMap_zipIdx members references).symm.trans (List.append_nil _).symm
  | record header fields =>
    rw [references, fieldsReferences_eq_flatMap, parts, List.flatMap_map]
    exact (flatMap_zipIdx fields fun field => field.schema.references).symm.trans
      (List.append_nil _).symm
  | array items => simp [references, reference?, parts]
  | map values => simp [references, reference?, parts]
  | _ => rfl

/-- The references are listed as they are collected. -/
theorem map_referencePaths (schema : Schema) :
    schema.referencePaths.map Prod.snd = schema.references := by
  induction schema using parts_induction with
  | node schema ih =>
    rw [referencePaths, placesOf_eq, references_eq_parts, List.map_append, List.map_flatMap,
      List.map_map]
    congr 1
    · refine List.flatMap_congr fun part hpart => ?_
      rw [behind, List.map_map, ← ih part hpart]
      rfl
    · exact List.map_id _

/-- Every reference is listed with its path. -/
theorem mem_referencePaths_iff {schema : Schema} {path : List Edge} {name : String} :
    (path, name) ∈ schema.referencePaths ↔ Leads schema path (.named name) := by
  simp [referencePaths, mem_placesOf_iff, reference?_eq_some_iff]

theorem precedes_cons_iff {edge edge' : Edge} {path path' : List Edge} :
    Precedes (edge :: path) (edge' :: path') ↔
      edge.index < edge'.index ∨ edge.index = edge'.index ∧ Precedes path path' :=
  List.cons_lt_cons_iff

/-- The references of a schema are listed in document order. -/
theorem pairwise_referencePaths (schema : Schema) :
    schema.referencePaths.Pairwise fun a b => Precedes a.1 b.1 := by
  induction schema using parts_induction with
  | node schema ih =>
    rw [referencePaths, placesOf_eq]
    cases hown : schema.reference? with
    | some name =>
      -- a reference has no parts
      rw [reference?_eq_some_iff.mp hown]
      exact List.pairwise_singleton ..
    | none =>
      rw [Option.toList_none, List.map_nil, List.append_nil, List.pairwise_flatMap]
      refine ⟨fun part hpart => ?_, ?_⟩
      · refine List.pairwise_map.mpr ((ih part hpart).imp fun hlt => ?_)
        exact precedes_cons_iff.mpr (.inr ⟨rfl, hlt⟩)
      · refine (pairwise_index_parts schema).imp fun hlt x hx y hy => ?_
        obtain ⟨place, -, rfl⟩ := List.mem_map.mp hx
        obtain ⟨place', -, rfl⟩ := List.mem_map.mp hy
        exact precedes_cons_iff.mpr (.inl hlt)

/-- In a list of places in document order, the first place of a name precedes all places of a name
that is found later. -/
theorem exists_place_before {places : List (List Edge × String)} {name other : String}
    (hplaces : places.Pairwise fun a b => Precedes a.1 b.1)
    (hlt : (places.map Prod.snd).idxOf name < (places.map Prod.snd).idxOf other) :
    ∃ path, (path, name) ∈ places ∧ ∀ path', (path', other) ∈ places → Precedes path path' := by
  induction places with
  | nil => simp at hlt
  | cons place places ih =>
    obtain ⟨hfirst, hothers⟩ := List.pairwise_cons.mp hplaces
    rw [List.map_cons] at hlt
    have hother : place.2 ≠ other := by
      rintro rfl
      simp at hlt
    have htail {path : List Edge} (hmem : (path, other) ∈ place :: places) :
        (path, other) ∈ places := by
      rcases List.mem_cons.mp hmem with rfl | hmem
      · exact absurd rfl hother
      · exact hmem
    by_cases hname : place.2 = name
    · subst hname
      exact ⟨place.1, List.mem_cons_self, fun path' hmem => hfirst _ (htail hmem)⟩
    · rw [List.idxOf_cons_ne _ hname, List.idxOf_cons_ne _ hother] at hlt
      obtain ⟨path, hpath, hbefore⟩ := ih hothers (Nat.lt_of_succ_lt_succ hlt)
      exact ⟨path, List.mem_cons_of_mem _ hpath, fun path' hmem => hbefore path' (htail hmem)⟩

/-- A name that is referred to earlier than another one appears before it. -/
theorem appearsBefore_of_idxOf_lt {schema : Schema} {name other : String}
    (h : schema.references.idxOf name < schema.references.idxOf other) :
    schema.AppearsBefore name other := by
  rw [← map_referencePaths] at h
  obtain ⟨path, hpath, hbefore⟩ := exists_place_before schema.pairwise_referencePaths h
  refine ⟨path, mem_referencePaths_iff.mp hpath, fun path' hleads => ?_⟩
  exact hbefore path' (mem_referencePaths_iff.mpr hleads)

/-! ### Unresolved names -/

theorem mem_unresolved_iff {schema : Schema} {name : String} :
    name ∈ schema.unresolved ↔ Occurs (.named name) schema ∧ ¬ schema.Declares name := by
  simp [unresolved, mem_references_iff, mem_declared_iff]

/-- The unresolved names of a schema are listed by first appearance. -/
theorem pairwise_unresolved (schema : Schema) :
    schema.unresolved.Pairwise schema.AppearsBefore :=
  (pairwise_idxOf_eraseDups_filter schema.references _).imp appearsBefore_of_idxOf_lt

theorem nodup_unresolved (schema : Schema) : schema.unresolved.Nodup := by
  refine (pairwise_idxOf_eraseDups_filter schema.references _).imp fun hlt heq => ?_
  rw [heq] at hlt
  exact Nat.lt_irrefl _ hlt

/-! ### Rearranged schemas -/

/-- A rearrangement permutes what is declared and what is referred to. -/
theorem Rearranges.perm {schema other : Schema} (h : Rearranges schema other) :
    (∀ outer, (schema.declaredIn outer).Perm (other.declaredIn outer)) ∧
      schema.references.Perm other.references := by
  induction h with
  | members h =>
    simp only [declaredIn, listDeclaredIn_eq_flatMap, references, listReferences_eq_flatMap]
    exact ⟨fun outer => h.flatMap_right _, h.flatMap_right _⟩
  | fields h =>
    simp only [declaredIn, fieldsDeclaredIn_eq_flatMap, references, fieldsReferences_eq_flatMap]
    exact ⟨fun outer => (h.flatMap_right _).append_left _, h.flatMap_right _⟩
  | inMember _ ih =>
    simp only [declaredIn, listDeclaredIn_eq_flatMap, references, listReferences_eq_flatMap,
      List.flatMap_append, List.flatMap_cons]
    exact ⟨fun outer => ((ih.1 outer).append_right _).append_left _,
      (ih.2.append_right _).append_left _⟩
  | inItems _ ih => exact ih
  | inValues _ ih => exact ih
  | @inField header before after field other _ ih =>
    simp only [declaredIn, fieldsDeclaredIn_eq_flatMap, references, fieldsReferences_eq_flatMap,
      List.flatMap_append, List.flatMap_cons]
    exact ⟨fun outer => (((ih.1 _).append_right _).append_left _).append_left _,
      (ih.2.append_right _).append_left _⟩

/-- One rearrangement after the other permutes what is declared and what is referred to. -/
theorem perm_of_rearranged {schema other : Schema}
    (h : Relation.ReflTransGen Rearranges schema other) :
    schema.declared.Perm other.declared ∧ schema.references.Perm other.references := by
  induction h with
  | refl => exact ⟨.refl _, .refl _⟩
  | tail _ hstep ih =>
    exact ⟨ih.1.trans (hstep.perm.1 none), ih.2.trans hstep.perm.2⟩

theorem unresolved_perm {schema other : Schema} (hdeclared : schema.declared.Perm other.declared)
    (hreferences : schema.references.Perm other.references) :
    schema.unresolved.Perm other.unresolved := by
  rw [List.perm_ext_iff_of_nodup schema.nodup_unresolved other.nodup_unresolved]
  intro name
  simp [unresolved, hdeclared.mem_iff, hreferences.mem_iff]

/-- **Declared and unresolved names.** The names that a schema declares are those that its records
and enums declare where they stand, and the qualified name of each of them is one. The unresolved
names of the schema are the references to names that it does not declare, each once and in the order
of first appearance. Rearranging the fields of records and the members of unions leaves the declared
names alone and permutes the unresolved ones. -/
theorem declared_and_unresolved_names (schema : Schema) :
    (∀ name, name ∈ schema.declared ↔ schema.Declares name) ∧
    (∀ node header name, Occurs node schema → node.header? = some header →
      header.qualifiedName = some name → name ∈ schema.declared) ∧
    (∀ name, name ∈ schema.unresolved ↔ Occurs (.named name) schema ∧ ¬ schema.Declares name) ∧
    schema.unresolved.Nodup ∧ schema.unresolved.Pairwise schema.AppearsBefore ∧
    ∀ other, Relation.ReflTransGen Rearranges schema other →
      (∀ name, name ∈ schema.declared ↔ name ∈ other.declared) ∧
      schema.unresolved.Perm other.unresolved := by
  refine ⟨fun _ => mem_declared_iff, fun _ _ _ => qualifiedName_mem_declared,
    fun _ => mem_unresolved_iff, schema.nodup_unresolved, schema.pairwise_unresolved, ?_⟩
  intro other h
  obtain ⟨hdeclared, hreferences⟩ := perm_of_rearranged h
  exact ⟨fun _ => hdeclared.mem_iff, unresolved_perm hdeclared hreferences⟩

end Schema

end AvroTypings
