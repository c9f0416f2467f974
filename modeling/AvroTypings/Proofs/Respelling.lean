import AvroTypings.Proofs.UnresolvedNames
import Mathlib.Data.List.Sort

/-!
# Namespaces inside and beside a name

A record or an enum can spell its namespace inside its name, as in `shop.Order`, or beside it, with
the name `Order` and the namespace `shop`. Both live in the namespace `shop` and hand it on to what
is nested in them. They do not declare the same names, though: spelled beside the name, the short
name `Order` is declared as well, while the dotted name is only declared as it stands. This file
moves every namespace out of the names of a schema and proves that this adds exactly the short
names.

## Main definitions

* `Header.Spells`: a name made of a namespace and a short name.
* `Schema.respelled`: a schema with all such namespaces beside the names.
* `Schema.HasShortName`: the short names of the records and enums that are spelled anew.

## Main results

* `Header.scopeIn_respelled`: the namespace in force stays the same.
* `Schema.mem_declaredIn_respelled_iff`: what is declared after that.
* `Schema.respelled_declares_short_names`: declared and unresolved names of both spellings.
-/

namespace AvroTypings

namespace Header

/-- What stands behind the last dot of a dotted name. -/
def lastPart (name : String) : String :=
  String.ofList (name.toList.reverse.takeWhile (· ≠ '.')).reverse

/-- Whether a name is made of a namespace, a dot and a short name, both not empty. -/
def isQualified (name : String) : Bool :=
  isDotted name && !(dotPrefix name).isEmpty && !(lastPart name).isEmpty

/-- The same header with the namespace beside the name, if it is spelled inside. -/
def respelled (header : Header) : Header :=
  match header.name with
  | some name =>
    if isQualified name then
      { header with name := some (lastPart name), scope := some (dotPrefix name) }
    else header
  | none => header

/-- The name of a record or enum spells out a namespace and a short name. -/
structure Spells (header : Header) (scope short : String) : Prop where
  name_eq : header.name = some (scope ++ "." ++ short)
  scope_ne : scope ≠ ""
  short_ne : short ≠ ""
  undotted : '.' ∉ short.toList

theorem lastPart_append {before last : String} (h : '.' ∉ last.toList) :
    lastPart (before ++ "." ++ last) = last := by
  rw [lastPart, toList_dotted, List.reverse_append, List.reverse_cons, List.append_assoc,
    List.takeWhile_append_of_pos (forall_mem_reverse_ne_dot h)]
  simp

theorem isQualified_iff {name : String} :
    isQualified name = true ↔ ∃ scope short, name = scope ++ "." ++ short ∧ scope ≠ "" ∧
      short ≠ "" ∧ '.' ∉ short.toList := by
  constructor
  · intro h
    simp only [isQualified, Bool.and_eq_true, Bool.not_eq_true'] at h
    obtain ⟨⟨hdotted, hscope⟩, hshort⟩ := h
    obtain ⟨scope, short, rfl, hlast⟩ := exists_of_isDotted hdotted
    rw [dotPrefix_append hlast] at hscope
    rw [lastPart_append hlast] at hshort
    refine ⟨scope, short, rfl, ?_, ?_, hlast⟩
    · rintro rfl
      simp at hscope
    · rintro rfl
      simp at hshort
  · rintro ⟨scope, short, rfl, hscope, hshort, hlast⟩
    simp [isQualified, isDotted_eq_true_iff, dotPrefix_append hlast, lastPart_append hlast, hscope,
      hshort]

variable {header : Header}

theorem Spells.respelled_eq {scope short : String} (h : header.Spells scope short) :
    header.respelled = { header with name := some short, scope := some scope } := by
  have hqualified := isQualified_iff.mpr ⟨scope, short, rfl, h.scope_ne, h.short_ne, h.undotted⟩
  simp [respelled, h.name_eq, hqualified, dotPrefix_append h.undotted, lastPart_append h.undotted]

theorem respelled_of_not_spells (h : ∀ scope short, ¬ header.Spells scope short) :
    header.respelled = header := by
  unfold respelled
  split
  · next name hname =>
    split
    · next hqualified =>
      obtain ⟨scope, short, rfl, hscope, hshort, hlast⟩ := isQualified_iff.mp hqualified
      exact absurd ⟨hname, hscope, hshort, hlast⟩ (h scope short)
    · rfl
  · rfl

/-- A name spells out at most one short name. -/
theorem Spells.short_unique {scope short scope' short' : String} (h : header.Spells scope short)
    (h' : header.Spells scope' short') : short = short' := by
  have hname := Option.some.inj (h.name_eq.symm.trans h'.name_eq)
  rw [← lastPart_append h.undotted, hname, lastPart_append h'.undotted]

theorem Spells.inForce_respelled {scope short : String} (h : header.Spells scope short)
    (outer : Option String) : header.respelled.InForce outer (some scope) := by
  rw [h.respelled_eq]
  refine .own (fun name hname => ?_) rfl h.scope_ne
  cases hname
  exact h.undotted

/-- The namespace in force at and below a record or enum does not depend on the spelling. -/
theorem scopeIn_respelled (header : Header) (outer : Option String) :
    header.respelled.scopeIn outer = header.scopeIn outer := by
  by_cases h : ∃ scope short, header.Spells scope short
  · obtain ⟨scope, short, h⟩ := h
    rw [inForce_iff.mp (h.inForce_respelled outer),
      inForce_iff.mp (.spelled h.name_eq h.undotted)]
  · rw [respelled_of_not_spells fun scope short hspells => h ⟨scope, short, hspells⟩]

/-- Spelled beside the name, a namespace leaves the short name declared as well. -/
theorem mem_declares_respelled_iff {outer : Option String} {name : String} :
    name ∈ header.respelled.declares outer ↔
      name ∈ header.declares outer ∨ ∃ scope, header.Spells scope name := by
  by_cases h : ∃ scope short, header.Spells scope short
  · obtain ⟨scope, short, h⟩ := h
    have hnew : header.respelled.name = some short := by rw [h.respelled_eq]
    have hscope := inForce_iff.mp (h.inForce_respelled outer)
    have hplain : isDotted short = false := isDotted_eq_false_iff.mpr h.undotted
    have hdotted : isDotted (scope ++ "." ++ short) = true := by simp [isDotted]
    rw [mem_declares_iff, mem_declares_iff, declares_of_name hnew, declares_of_name h.name_eq,
      hscope, hplain, hdotted]
    constructor
    · rintro (rfl | ⟨-, other, hother, rfl⟩)
      · exact .inr ⟨scope, h⟩
      · cases hother
        exact .inl (.inl rfl)
    · rintro ((rfl | ⟨hfalse, -⟩) | ⟨other, hother⟩)
      · exact .inr ⟨rfl, scope, rfl, rfl⟩
      · cases hfalse
      · exact .inl (hother.short_unique h)
  · rw [respelled_of_not_spells fun scope short hspells => h ⟨scope, short, hspells⟩]
    refine ⟨.inl, ?_⟩
    rintro (hmem | ⟨scope, hspells⟩)
    · exact hmem
    · exact absurd ⟨scope, name, hspells⟩ h

end Header

namespace Schema

mutual

/-- A schema in which no record or enum spells its namespace inside its name. -/
def respelled : Schema → Schema
  | .record header fields => .record header.respelled (fieldsRespelled fields)
  | .enum header symbols => .enum header.respelled symbols
  | .union members => .union (listRespelled members)
  | .array items => .array (respelled items)
  | .map values => .map (respelled values)
  | .primitive type => .primitive type
  | .named name => .named name
  | .unknown value => .unknown value

/-- Schemas respelled one by one. -/
def listRespelled : List Schema → List Schema
  | [] => []
  | schema :: schemas => respelled schema :: listRespelled schemas

/-- Fields with their types respelled one by one. -/
def fieldsRespelled : List Field → List Field
  | [] => []
  | ⟨name, schema, doc⟩ :: fields => ⟨name, respelled schema, doc⟩ :: fieldsRespelled fields

end

/-- A record or an enum of the schema spells its namespace inside its name, and has the given short
name behind it. -/
def HasShortName (schema : Schema) (name : String) : Prop :=
  ∃ node header scope, Occurs node schema ∧ node.header? = some header ∧ header.Spells scope name

theorem listRespelled_eq_map (schemas : List Schema) :
    listRespelled schemas = schemas.map respelled :=
  eq_map_of_cons rfl (fun _ _ => rfl) schemas

theorem fieldsRespelled_eq_map (fields : List Field) :
    fieldsRespelled fields = fields.map fun field =>
      { field with schema := field.schema.respelled } :=
  eq_map_of_cons rfl (fun _ _ => rfl) fields

/-! ### References -/

/-- References are not touched. -/
theorem references_respelled (schema : Schema) :
    schema.respelled.references = schema.references := by
  induction schema with
  | primitive type => rfl
  | named name => rfl
  | unknown value => rfl
  | enum header symbols => rfl
  | array items ih => exact ih
  | map values ih => exact ih
  | union members ih =>
    simp only [respelled, references, listRespelled_eq_map, listReferences_eq_flatMap,
      List.flatMap_map]
    exact List.flatMap_congr ih
  | record header fields ih _ =>
    simp only [respelled, references, fieldsRespelled_eq_map, fieldsReferences_eq_flatMap,
      List.flatMap_map]
    exact List.flatMap_congr ih

/-! ### Short names -/

section HasShortName

variable {name : String}

@[simp] theorem hasShortName_enum_iff {header : Header} {symbols : List String} :
    HasShortName (.enum header symbols) name ↔ ∃ scope, header.Spells scope name := by
  simp [HasShortName, header?]

@[simp] theorem hasShortName_array_iff {items : Schema} :
    HasShortName (.array items) name ↔ HasShortName items name := by
  simp [HasShortName, header?, or_and_right, exists_or]

@[simp] theorem hasShortName_map_iff {values : Schema} :
    HasShortName (.map values) name ↔ HasShortName values name := by
  simp [HasShortName, header?, or_and_right, exists_or]

@[simp] theorem hasShortName_union_iff {members : List Schema} :
    HasShortName (.union members) name ↔ ∃ member ∈ members, HasShortName member name := by
  constructor
  · rintro ⟨node, header, scope, hoccurs, hheader, hspells⟩
    rcases occurs_union.mp hoccurs with rfl | ⟨member, hmem, hoccurs⟩
    · cases hheader
    · exact ⟨member, hmem, node, header, scope, hoccurs, hheader, hspells⟩
  · rintro ⟨member, hmem, node, header, scope, hoccurs, h⟩
    exact ⟨node, header, scope, .union hmem hoccurs, h⟩

@[simp] theorem hasShortName_record_iff {header : Header} {fields : List Field} :
    HasShortName (.record header fields) name ↔
      (∃ scope, header.Spells scope name) ∨ ∃ field ∈ fields, HasShortName field.schema name := by
  constructor
  · rintro ⟨node, inner, scope, hoccurs, hheader, hspells⟩
    rcases occurs_record.mp hoccurs with rfl | ⟨field, hmem, hoccurs⟩
    · cases hheader
      exact .inl ⟨scope, hspells⟩
    · exact .inr ⟨field, hmem, node, inner, scope, hoccurs, hheader, hspells⟩
  · rintro (⟨scope, hspells⟩ | ⟨field, hmem, node, inner, scope, hoccurs, h⟩)
    · exact ⟨_, header, scope, .self, rfl, hspells⟩
    · exact ⟨node, inner, scope, .record hmem hoccurs, h⟩

end HasShortName

theorem exists_mem_iff_or {α : Type} {l : List α} {p q r : α → Prop}
    (h : ∀ a ∈ l, (p a ↔ q a ∨ r a)) :
    (∃ a ∈ l, p a) ↔ (∃ a ∈ l, q a) ∨ ∃ a ∈ l, r a := by
  rw [← exists_or]
  simp only [← and_or_left]
  exact exists_congr fun a => and_congr_right (h a)

/-- What is declared after respelling: the same names, and the short names. -/
theorem mem_declaredIn_respelled_iff {schema : Schema} {outer : Option String} {name : String} :
    name ∈ schema.respelled.declaredIn outer ↔
      name ∈ schema.declaredIn outer ∨ schema.HasShortName name := by
  induction schema generalizing outer with
  | primitive type => simp [respelled, declaredIn, HasShortName, header?]
  | named name => simp [respelled, declaredIn, HasShortName, header?]
  | unknown value => simp [respelled, declaredIn, HasShortName, header?]
  | enum header symbols =>
    rw [respelled, declaredIn, declaredIn, Header.mem_declares_respelled_iff,
      hasShortName_enum_iff]
  | array items ih => simpa [respelled, declaredIn] using ih
  | map values ih => simpa [respelled, declaredIn] using ih
  | union members ih =>
    simp only [respelled, declaredIn, listRespelled_eq_map, listDeclaredIn_eq_flatMap,
      List.flatMap_map, List.mem_flatMap, hasShortName_union_iff]
    exact exists_mem_iff_or fun member hmem => ih member hmem
  | record header fields ih _ =>
    simp only [respelled, declaredIn, fieldsRespelled_eq_map, fieldsDeclaredIn_eq_flatMap,
      List.flatMap_map, List.mem_append, List.mem_flatMap, hasShortName_record_iff,
      Header.mem_declares_respelled_iff, Header.scopeIn_respelled]
    rw [exists_mem_iff_or fun field hmem => ih field hmem, or_or_or_comm]

/-! ### Declared and unresolved names -/

theorem mem_unresolved_respelled_iff {schema : Schema} {name : String} :
    name ∈ schema.respelled.unresolved ↔ name ∈ schema.unresolved ∧ ¬ schema.HasShortName name := by
  have hdeclared : name ∈ schema.respelled.declared ↔
      name ∈ schema.declared ∨ schema.HasShortName name := mem_declaredIn_respelled_iff
  simp [unresolved, references_respelled, hdeclared, and_assoc]

/-- Unresolved names that are found among those of a schema with the same references are found there
in the same order. -/
theorem unresolved_sublist {schema other : Schema} (href : schema.references = other.references)
    (hsubset : schema.unresolved ⊆ other.unresolved) :
    schema.unresolved.Sublist other.unresolved := by
  have hother := pairwise_idxOf_eraseDups_filter other.references
  have : Std.Antisymm fun a b => other.references.idxOf a < other.references.idxOf b :=
    ⟨fun a b hab hba => absurd hab (Nat.lt_asymm hba)⟩
  have hsubperm := List.subperm_of_subset schema.nodup_unresolved hsubset
  refine List.sublist_of_subperm_of_pairwise hsubperm ?_ (hother _)
  rw [unresolved, href]
  exact hother _

/-- **Namespaces inside and beside a name.** A schema with its namespaces beside the names declares
what it did before and, in addition, the short names of all records and enums that spelled their
namespace inside their name. Its unresolved names are the same, in the same order, but for those
short names. So the spelling makes no difference to the declared names exactly if every such short
name is declared anyway, and none to the unresolved names exactly if no such short name is among
them. -/
theorem respelled_declares_short_names (schema : Schema) :
    (∀ name, name ∈ schema.respelled.declared ↔
      name ∈ schema.declared ∨ schema.HasShortName name) ∧
    (∀ name, name ∈ schema.respelled.unresolved ↔
      name ∈ schema.unresolved ∧ ¬ schema.HasShortName name) ∧
    schema.respelled.unresolved.Sublist schema.unresolved ∧
    ((∀ name, name ∈ schema.respelled.declared ↔ name ∈ schema.declared) ↔
      ∀ name, schema.HasShortName name → name ∈ schema.declared) ∧
    (schema.respelled.unresolved = schema.unresolved ↔
      ∀ name ∈ schema.unresolved, ¬ schema.HasShortName name) := by
  have hdeclared (name : String) : name ∈ schema.respelled.declared ↔
      name ∈ schema.declared ∨ schema.HasShortName name := mem_declaredIn_respelled_iff
  have hsublist : schema.respelled.unresolved.Sublist schema.unresolved :=
    unresolved_sublist schema.references_respelled fun name hname =>
      (mem_unresolved_respelled_iff.mp hname).1
  refine ⟨hdeclared, fun _ => mem_unresolved_respelled_iff, hsublist, ?_, ?_, ?_⟩
  · simp only [hdeclared, or_iff_left_iff_imp]
  · intro heq name hname
    rw [← heq] at hname
    exact (mem_unresolved_respelled_iff.mp hname).2
  · intro hnone
    refine hsublist.antisymm (unresolved_sublist schema.references_respelled.symm ?_)
    exact fun name hname => mem_unresolved_respelled_iff.mpr ⟨hname, hnone name hname⟩

/-- A record that refers to itself by its short name. The reference is unresolved if the namespace
stands inside the name, and resolved if it stands beside it. -/
theorem dotted_name_hides_short_name :
    let previous : Field := ⟨"previous", .union [.primitive .null, .named "Order"], none⟩
    let order : Schema := .record { name := some "shop.Order" } [previous]
    order.respelled = .record { name := some "Order", scope := some "shop" } [previous] ∧
      order.declared = ["shop.Order"] ∧ order.respelled.declared = ["Order", "shop.Order"] ∧
      order.unresolved = ["Order"] ∧ order.respelled.unresolved = [] ∧
      ¬ ((∀ name, name ∈ order.respelled.declared ↔ name ∈ order.declared) ∧
        order.respelled.unresolved = order.unresolved) := by
  intro previous order
  have hdeclared : order.respelled.unresolved = [] := by rfl
  have hunresolved : order.unresolved = ["Order"] := by rfl
  refine ⟨by rfl, by rfl, by rfl, hunresolved, hdeclared, ?_⟩
  rintro ⟨-, heq⟩
  rw [hdeclared, hunresolved] at heq
  cases heq

end Schema

end AvroTypings
