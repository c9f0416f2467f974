import AvroTypings.Proofs.Hoisting
import AvroTypings.Proofs.TypeGrammar

/-!
# The structure of type expressions

An expression is put together from the expressions of the parts of a schema, as text and without
parentheses. This file reads it back with the grammar of type expressions and compares what is read
with the schema. Maps, unions and names read as they should. So does an array, unless its item type
has several alternatives: the brackets of the array then belong to the last one only.

## Main definitions

* `Schema.Part`: the nodes whose expressions make up the expression of a schema.
* `Schema.KeepsStructure`: the expression of a node reads as the node asks.
* `Schema.Forks`: schemas whose expression has several alternatives.
* `Schema.Legible`: schemas without empty unions, in which all names are names of the grammar.

## Main results

* `Schema.exists_denotes`: every expression can be read.
* `Schema.isWide_iff_forks`: which expressions have several alternatives.
* `Schema.all_parts_keepStructure_iff`: the structure is kept exactly where no array has items with
  several alternatives.
-/

namespace AvroTypings.Schema

/-! ### Parts and their readings -/

/-- The expression of a schema in a context denotes the given alternatives. -/
def Denotes (schema : Schema) (context : String) (alternatives : List Alternative) : Prop :=
  Reads .whole (schema.expression context) alternatives

/-- The expression of a node, in its own context, is part of the expression of a schema. Nothing
below a record or an enum is, since only its name stands in the expression. -/
inductive Part : Schema → String → Schema → String → Prop
  | self {schema : Schema} {context : String} : Part schema context schema context
  | array {items node : Schema} {context inner : String}
      (h : Part items (nestedName context "Item") node inner) :
      Part (.array items) context node inner
  | map {values node : Schema} {context inner : String}
      (h : Part values (nestedName context "Value") node inner) :
      Part (.map values) context node inner
  | union {members : List Schema} {member node : Schema} {context inner : String}
      (hmem : member ∈ members) (h : Part member context node inner) :
      Part (.union members) context node inner

/-- The expression of a node reads as the node asks: an array as an array of what its items read
as, a map as a record of what its values read as, a union as the set of the alternatives of its
members, and every other node as its name. -/
def KeepsStructure (schema : Schema) (context : String) : Prop :=
  match schema with
  | .primitive type => schema.Denotes context [.name type.typeScript]
  | .named name => schema.Denotes context [.name name]
  | .unknown _ => schema.Denotes context [.name "any"]
  | .enum header _ =>
    schema.Denotes context [.name (header.name.getD (nestedName context "Enum"))]
  | .record header _ => schema.Denotes context [.name (header.name.getD context)]
  | .array items => ∃ alternatives, items.Denotes (nestedName context "Item") alternatives ∧
      (Schema.array items).Denotes context [.array alternatives]
  | .map values => ∃ alternatives, values.Denotes (nestedName context "Value") alternatives ∧
      (Schema.map values).Denotes context [.record alternatives]
  | .union members => (∀ member ∈ members, ∃ own, member.Denotes context own) ∧
      ∃ alternatives, (Schema.union members).Denotes context alternatives ∧
        ∀ a, a ∈ alternatives ↔ ∃ member ∈ members, ∃ own, member.Denotes context own ∧ a ∈ own

/-- A schema has several alternatives: it is a union of two members with different expressions or of
a member that has several alternatives, or an array of items that have. -/
inductive Forks : Schema → String → Prop
  | apart {members : List Schema} {member other : Schema} {context : String}
      (hmem : member ∈ members) (hother : other ∈ members)
      (hne : member.expression context ≠ other.expression context) :
      Forks (.union members) context
  | union {members : List Schema} {member : Schema} {context : String} (hmem : member ∈ members)
      (h : Forks member context) : Forks (.union members) context
  | array {items : Schema} {context : String} (h : Forks items (nestedName context "Item")) :
      Forks (.array items) context

/-- The names that stand at a node itself. -/
def nodeNames : Schema → List String
  | .named name => [name]
  | .enum header _ => header.name.toList
  | .record header fields => header.name.toList ++ fields.map (·.name)
  | _ => []

/-- A schema without empty unions in which every name is a possibly dotted identifier. -/
structure Legible (schema : Schema) : Prop where
  unions : ∀ node, Occurs node schema → node ≠ .union []
  names : ∀ node, Occurs node schema → ∀ name ∈ node.nodeNames, IsName name

theorem Legible.of_occurs {node schema : Schema} (h : schema.Legible) (hnode : Occurs node schema) :
    node.Legible :=
  ⟨fun other hother => h.unions other (hother.trans hnode),
    fun other hother => h.names other (hother.trans hnode)⟩

theorem isName_item {context : String} (h : IsName context) : IsName (nestedName context "Item") :=
  h.append (by decide)

theorem isName_value {context : String} (h : IsName context) :
    IsName (nestedName context "Value") :=
  h.append (by decide)

/-- A part of a legible schema is legible, and stands in a context that is a name. -/
theorem Part.legible {schema node : Schema} {context inner : String}
    (hpart : Part schema context node inner) (h : schema.Legible) (hcontext : IsName context) :
    node.Legible ∧ IsName inner := by
  induction hpart with
  | self => exact ⟨h, hcontext⟩
  | array _ ih => exact ih (h.of_occurs (.array .self)) (isName_item hcontext)
  | map _ ih => exact ih (h.of_occurs (.map .self)) (isName_value hcontext)
  | union hmem _ ih => exact ih (h.of_occurs (.union hmem .self)) hcontext

/-! ### Names -/

/-- Whether the expression of a schema is put together from those of its parts. -/
def isComposite : Schema → Bool
  | .array _ => true
  | .map _ => true
  | .union _ => true
  | _ => false

theorem isName_typeScript (type : Primitive) : IsName type.typeScript := by
  cases type <;> exact .identifier (by decide)

/-- The other expressions are names. -/
theorem isName_expression {schema : Schema} (h : schema.Legible) {context : String}
    (hcontext : IsName context) (hleaf : schema.isComposite = false) :
    IsName (schema.expression context) := by
  cases schema with
  | primitive type =>
    rw [expression_primitive]
    exact isName_typeScript type
  | named name =>
    rw [expression_named]
    exact h.names _ .self name List.mem_cons_self
  | unknown value =>
    rw [expression_unknown]
    exact .identifier (by decide)
  | enum header symbols =>
    rw [expression_enum]
    cases hname : header.name with
    | none => exact hcontext.append (by decide)
    | some name => exact h.names _ .self name (by simp [nodeNames, hname])
  | record header fields =>
    rw [expression_record]
    cases hname : header.name with
    | none => exact hcontext
    | some name => exact h.names _ .self name (by simp [nodeNames, hname])
  | array items => contradiction
  | map values => contradiction
  | union members => contradiction

/-- The other expressions are read as names. -/
theorem denotes_name {schema : Schema} (h : schema.Legible) {context : String}
    (hcontext : IsName context) (hleaf : schema.isComposite = false) :
    schema.Denotes context [.name (schema.expression context)] :=
  .operand (.name (isName_expression h hcontext hleaf))

/-! ### Every expression can be read -/

/-- The distinct expressions of the members of a union. -/
def memberTexts (members : List Schema) (context : String) : List String :=
  (members.map (·.expression context)).eraseDups

section MemberTexts

variable {members : List Schema} {member : Schema} {context text : String}

theorem expression_union_eq_join :
    (Schema.union members).expression context = " | ".intercalate (memberTexts members context) :=
  expression_union context members

theorem mem_memberTexts :
    text ∈ memberTexts members context ↔
      ∃ member ∈ members, member.expression context = text := by
  rw [memberTexts, List.mem_eraseDups, List.mem_map]

theorem expression_mem_memberTexts (hmem : member ∈ members) :
    member.expression context ∈ memberTexts members context :=
  mem_memberTexts.mpr ⟨member, hmem, rfl⟩

theorem exists_reads_of_mem_memberTexts
    (h : ∀ member ∈ members, ∃ own, member.Denotes context own) :
    ∀ text ∈ memberTexts members context, ∃ own, Reads .whole text own := by
  intro text htext
  obtain ⟨member, hmem, rfl⟩ := mem_memberTexts.mp htext
  exact h member hmem

/-- The expression of a union whose members can be read. -/
theorem denotes_union (hne : members ≠ [])
    (h : ∀ member ∈ members, ∃ own, member.Denotes context own) :
    ∃ alternatives, (Schema.union members).Denotes context alternatives ∧
      ∀ a, a ∈ alternatives ↔ ∃ member ∈ members, ∃ own, member.Denotes context own ∧ a ∈ own := by
  obtain ⟨first, hfirst⟩ := List.exists_mem_of_ne_nil members hne
  obtain ⟨alternatives, hread, halternatives⟩ :=
    Reads.join (List.ne_nil_of_mem (expression_mem_memberTexts hfirst))
      (exists_reads_of_mem_memberTexts h)
  refine ⟨alternatives, by rwa [Denotes, expression_union_eq_join], fun a => ?_⟩
  rw [halternatives]
  constructor
  · rintro ⟨text, htext, own, hown, ha⟩
    obtain ⟨member, hmem, rfl⟩ := mem_memberTexts.mp htext
    exact ⟨member, hmem, own, hown, ha⟩
  · rintro ⟨member, hmem, own, hown, ha⟩
    exact ⟨_, expression_mem_memberTexts hmem, own, hown, ha⟩

end MemberTexts

theorem Legible.members_ne_nil {members : List Schema} (h : (Schema.union members).Legible) :
    members ≠ [] := by
  rintro rfl
  exact h.unions _ .self rfl

/-- Every expression of a legible schema can be read. -/
theorem exists_denotes {schema : Schema} (h : schema.Legible) {context : String}
    (hcontext : IsName context) : ∃ alternatives, schema.Denotes context alternatives := by
  induction schema generalizing context with
  | array items ih =>
    obtain ⟨alternatives, hitems⟩ := ih (h.of_occurs (.array .self)) (isName_item hcontext)
    obtain ⟨more, hmore⟩ := hitems.exists_array
    exact ⟨more, by rwa [Denotes, expression_array]⟩
  | map values ih =>
    obtain ⟨alternatives, hvalues⟩ := ih (h.of_occurs (.map .self)) (isName_value hcontext)
    refine ⟨[.record alternatives], ?_⟩
    rw [Denotes, expression_map]
    exact .operand (.record hvalues)
  | union members ih =>
    obtain ⟨alternatives, hread, -⟩ := denotes_union h.members_ne_nil fun member hmem =>
      ih member hmem (h.of_occurs (.union hmem .self)) hcontext
    exact ⟨alternatives, hread⟩
  | _ => exact ⟨_, denotes_name h hcontext rfl⟩

/-! ### Expressions with several alternatives -/

theorem eraseDups_eq_singleton {l : List String} {x : String} (hne : l ≠ [])
    (h : ∀ y ∈ l, y = x) : l.eraseDups = [x] := by
  cases l with
  | nil => contradiction
  | cons y l =>
    obtain rfl := h y List.mem_cons_self
    have hnil : l.filter (fun z => !z == y) = [] := by
      simpa using fun z hz => h z (List.mem_cons_of_mem y hz)
    rw [List.eraseDups_cons, hnil, List.eraseDups_nil]

theorem isWide_union_iff {members : List Schema} {context : String} (hne : members ≠ [])
    (hreads : ∀ member ∈ members, ∃ own, member.Denotes context own)
    (ih : ∀ member ∈ members, IsWide (member.expression context) ↔ member.Forks context) :
    IsWide ((Schema.union members).expression context) ↔ (Schema.union members).Forks context := by
  obtain ⟨first, hfirst⟩ := List.exists_mem_of_ne_nil members hne
  by_cases hsame : ∀ member ∈ members, member.expression context = first.expression context
  · have htext : memberTexts members context = [first.expression context] :=
      eraseDups_eq_singleton (by simpa using hne) (by simpa using hsame)
    rw [expression_union_eq_join, htext, String.intercalate_singleton]
    constructor
    · exact fun hwide => .union hfirst ((ih first hfirst).mp hwide)
    · intro hforks
      cases hforks with
      | apart hmem hother hapart => exact absurd ((hsame _ hmem).trans (hsame _ hother).symm) hapart
      | union hmem hforks => exact hsame _ hmem ▸ (ih _ hmem).mpr hforks
  · obtain ⟨other, hother, hapart⟩ : ∃ other ∈ members,
        other.expression context ≠ first.expression context := by
      simpa using hsame
    refine iff_of_true ?_ (.apart hother hfirst hapart)
    have hmem : other.expression context ∈ memberTexts members context :=
      expression_mem_memberTexts hother
    have hmem' : first.expression context ∈ memberTexts members context :=
      expression_mem_memberTexts hfirst
    have htexts := exists_reads_of_mem_memberTexts hreads
    rw [expression_union_eq_join]
    -- Two different texts stand in the list, so it has at least two items.
    match hlist : memberTexts members context with
    | [] =>
      rw [hlist] at hmem
      contradiction
    | [text] =>
      rw [hlist, List.mem_singleton] at hmem hmem'
      exact absurd (hmem.trans hmem'.symm) hapart
    | text :: next :: rest =>
      rw [hlist] at htexts
      exact isWide_join htexts

/-- The expression of a schema has several alternatives exactly if the schema has. -/
theorem isWide_iff_forks {schema : Schema} (h : schema.Legible) {context : String}
    (hcontext : IsName context) : IsWide (schema.expression context) ↔ schema.Forks context := by
  induction schema generalizing context with
  | array items ih =>
    have hitems := h.of_occurs (.array .self)
    obtain ⟨alternatives, hread⟩ := exists_denotes hitems (isName_item hcontext)
    rw [expression_array, isWide_array_iff hread, ih hitems (isName_item hcontext)]
    exact ⟨.array, fun | .array hforks => hforks⟩
  | map values _ =>
    have hvalues := h.of_occurs (.map .self)
    obtain ⟨alternatives, hread⟩ := exists_denotes hvalues (isName_value hcontext)
    rw [expression_map]
    exact iff_of_false (fun hwide => not_reads_operand_of_isWide hwide (.record hread)) nofun
  | union members ih =>
    have hmembers (member : Schema) (hmem : member ∈ members) : member.Legible :=
      h.of_occurs (.union hmem .self)
    exact isWide_union_iff h.members_ne_nil
      (fun member hmem => exists_denotes (hmembers member hmem) hcontext)
      fun member hmem => ih member hmem (hmembers member hmem) hcontext
  | _ =>
    have hread := Reads.name (isName_expression h hcontext rfl)
    exact iff_of_false (fun hwide => not_reads_operand_of_isWide hwide hread) nofun

/-! ### What is kept -/

/-- The expression of a node reads as the node asks, unless it is an array of items that have
several alternatives. -/
theorem keepsStructure_iff {schema : Schema} (h : schema.Legible) {context : String}
    (hcontext : IsName context) :
    schema.KeepsStructure context ↔
      ∀ items, schema = .array items → ¬ items.Forks (nestedName context "Item") := by
  cases schema with
  | array items =>
    have hitems := h.of_occurs (.array .self)
    obtain ⟨alternatives, hread⟩ := exists_denotes hitems (isName_item hcontext)
    have harray := reads_array_whole_iff hread
    rw [isWide_iff_forks hitems (isName_item hcontext)] at harray
    constructor
    · rintro ⟨own, hown, hkept⟩ _ ⟨⟩
      rw [Denotes, expression_array, hown.unique hread] at hkept
      exact harray.mp hkept
    · intro hforks
      refine ⟨alternatives, hread, ?_⟩
      rw [Denotes, expression_array]
      exact harray.mpr (hforks items rfl)
  | map values =>
    have hvalues := h.of_occurs (.map .self)
    obtain ⟨alternatives, hread⟩ := exists_denotes hvalues (isName_value hcontext)
    refine iff_of_true ⟨alternatives, hread, ?_⟩ nofun
    rw [Denotes, expression_map]
    exact .operand (.record hread)
  | union members =>
    have hreads (member : Schema) (hmem : member ∈ members) : ∃ own, member.Denotes context own :=
      exists_denotes (h.of_occurs (.union hmem .self)) hcontext
    exact iff_of_true ⟨hreads, denotes_union h.members_ne_nil hreads⟩ nofun
  | _ => exact iff_of_true (by simpa [KeepsStructure] using denotes_name h hcontext rfl) nofun

/-- **Expressions and structure.** Every part of the expression of a legible schema reads as the
schema asks if and only if no part is an array of items that have several alternatives. -/
theorem all_parts_keepStructure_iff {schema : Schema} (h : schema.Legible) {context : String}
    (hcontext : IsName context) :
    (∀ node inner, Part schema context node inner → node.KeepsStructure inner) ↔
      ∀ items inner, Part schema context (.array items) inner →
        ¬ items.Forks (nestedName inner "Item") := by
  constructor
  · intro hkept items inner hpart
    obtain ⟨hnode, hinner⟩ := hpart.legible h hcontext
    exact (keepsStructure_iff hnode hinner).mp (hkept _ _ hpart) items rfl
  · intro hforks node inner hpart
    obtain ⟨hnode, hinner⟩ := hpart.legible h hcontext
    refine (keepsStructure_iff hnode hinner).mpr ?_
    rintro items rfl
    exact hforks items inner hpart

/-- A map of arrays or `null` keeps its structure: the items of the arrays are no union. -/
theorem map_of_arrays_keeps_structure :
    let schema : Schema := .map (.union [.array (.named "shop.Order"), .primitive .null])
    schema.Legible ∧ IsName "Orders" ∧
      ∀ node inner, Part schema "Orders" node inner → node.KeepsStructure inner := by
  intro schema
  have hname : IsName "shop.Order" :=
    @IsName.dotted "shop" "Order" (by decide) (.identifier (by decide))
  have hlegible : schema.Legible :=
    ⟨by simp [schema, or_imp, forall_and], by simp [schema, or_imp, forall_and, nodeNames, hname]⟩
  have hcontext : IsName "Orders" := .identifier (by decide)
  refine ⟨hlegible, hcontext, (all_parts_keepStructure_iff hlegible hcontext).mpr ?_⟩
  intro items inner hpart hforks
  simp only [schema] at hpart
  rcases hpart with _ | _ | ⟨_ | _ | _ | ⟨hmem, hpart⟩⟩
  simp only [List.mem_cons, List.not_mem_nil, or_false] at hmem
  rcases hmem with rfl | rfl
  · cases hpart with
    | self => cases hforks
    | array hpart => cases hpart
  · cases hpart

/-- An array of a union does not: its expression reads as a union that ends in an array. -/
theorem array_of_union_loses_structure :
    let schema : Schema := .array (.union [.primitive .int, .primitive .string])
    schema.Legible ∧ IsName "Ids" ∧
      schema.Denotes "Ids" [.name "number", .array [.name "string"]] ∧
      ¬ schema.KeepsStructure "Ids" := by
  intro schema
  have hlegible : schema.Legible :=
    ⟨by simp [schema, or_imp, forall_and], by simp [schema, or_imp, forall_and, nodeNames]⟩
  have hcontext : IsName "Ids" := .identifier (by decide)
  have hnumber : Reads .operand "number" [.name "number"] := .name (.identifier (by decide))
  have hstring : Reads .operand "string" [.name "string"] := .name (.identifier (by decide))
  have htext : schema.expression "Ids" = "number" ++ " | " ++ ("string" ++ "[]") := by
    simp only [schema, expression_array, expression_union, List.map_cons, List.map_nil,
      expression_primitive, Primitive.typeScript]
    rfl
  have hapart (context : String) : (Schema.primitive .int).expression context ≠
      (Schema.primitive .string).expression context := by
    simp [Primitive.typeScript]
  refine ⟨hlegible, hcontext, ?_, ?_⟩
  · rw [Denotes, htext]
    exact .union hnumber (.operand (.array hstring))
  · intro hkept
    refine (keepsStructure_iff hlegible hcontext).mp hkept _ rfl ?_
    exact .apart (by simp) (by simp) (hapart _)

end AvroTypings.Schema
