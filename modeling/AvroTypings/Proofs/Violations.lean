import AvroTypings.Proofs.Sites
import AvroTypings.Schema.Check
import Mathlib.Data.List.Duplicate

/-!
# Violations in document order

The check of a schema stops at the first repetition that it meets. What it would meet if it went on
is a list: the repetitions of a schema from left to right, where a field of a record is itself a
repetition before anything inside its type is. This file writes the list down by positions, without
a set of names that is carried along, and proves that the check reports its first entry. The list
holds the repetitions of all nodes, so that none of them is passed over.

## Main definitions

* `repetitions`: for each position of a list of names, the violation that stands there.
* `Schema.violations`: the violations of a schema in document order.
* `Schema.Repeats`: what a single record or enum repeats.

## Main results

* `Schema.check_eq_firstOf`: the check reports the first violation.
* `Schema.mem_violations_iff`: the violations of a schema are those of its nodes.
* `Schema.check_eq_ok_iff_nodes`, `Schema.exists_repeats_of_check`: what the check finds, by the
  nodes of the schema.
-/

namespace AvroTypings

/-- For each of the names that follow those of `earlier`, the violation that it is if it stands
before its own position already. -/
def repetitions (violation : String → SchemaError) (earlier names : List String) :
    List (List SchemaError) :=
  names.zipIdx.map fun (name, index) =>
    if name ∈ earlier ++ names.take index then [violation name] else []

/-- The outcome of a check that stops at the first violation. -/
def firstOf : List SchemaError → Except SchemaError Unit
  | [] => .ok ()
  | violation :: _ => .error violation

namespace Schema

mutual

/-- The violations of a schema in document order. For a record this is field by field: the name of
the field if an earlier field has it, and then the violations inside its type. A record or enum
without a name is reported under the empty name. -/
def violations : Schema → List SchemaError
  | .record header fields =>
    let names := repetitions (.duplicateField (header.name.getD "")) [] (fields.map FieldOf.name)
    (List.zipWith (· ++ ·) names (fieldViolations fields)).flatten
  | .enum header symbols =>
    (repetitions (.duplicateSymbol (header.name.getD "")) [] symbols).flatten
  | .union members => listViolations members
  | .array items => violations items
  | .map values => violations values
  | .primitive _ => []
  | .named _ => []
  | .unknown _ => []

/-- The violations of schemas one after the other. -/
def listViolations : List Schema → List SchemaError
  | [] => []
  | schema :: schemas => violations schema ++ listViolations schemas

/-- For each field, the violations inside its type. -/
def fieldViolations : List Field → List (List SchemaError)
  | [] => []
  | ⟨_, schema, _⟩ :: fields => violations schema :: fieldViolations fields

end

/-- What a record or an enum repeats: a name that two of its fields have, or a symbol that it has
twice. -/
def Repeats : Schema → SchemaError → Prop
  | .record header fields, e =>
    ∃ name, List.Duplicate name (fields.map FieldOf.name) ∧
      e = .duplicateField (header.name.getD "") name
  | .enum header symbols, e =>
    ∃ symbol, List.Duplicate symbol symbols ∧ e = .duplicateSymbol (header.name.getD "") symbol
  | _, _ => False

end Schema

/-! ### Positions -/

section Repetitions

variable {violation : String → SchemaError}

@[simp] theorem repetitions_nil (earlier : List String) :
    repetitions violation earlier [] = [] := rfl

@[simp] theorem length_repetitions (earlier names : List String) :
    (repetitions violation earlier names).length = names.length := by
  simp [repetitions]

theorem repetitions_cons (earlier : List String) (name : String) (names : List String) :
    repetitions violation earlier (name :: names) =
      (if name ∈ earlier then [violation name] else []) ::
        repetitions violation (earlier ++ [name]) names := by
  simp [repetitions, List.zipIdx_succ, Function.comp_def]

/-- The violations at all positions are those of the names that are repeated or stand among the
earlier ones. -/
theorem mem_flatten_repetitions_iff {earlier names : List String} {e : SchemaError} :
    e ∈ (repetitions violation earlier names).flatten ↔
      ∃ name, (List.Duplicate name names ∨ name ∈ names ∧ name ∈ earlier) ∧ e = violation name := by
  induction names generalizing earlier with
  | nil => simp
  | cons first names ih =>
    rw [repetitions_cons, List.flatten_cons, List.mem_append, ih]
    constructor
    · rintro (hfirst | ⟨name, hname, rfl⟩)
      · split at hfirst
        · next hearlier =>
          exact ⟨first, .inr ⟨List.mem_cons_self, hearlier⟩, List.mem_singleton.mp hfirst⟩
        · cases hfirst
      · refine ⟨name, ?_, rfl⟩
        simp only [List.duplicate_cons_iff, List.mem_append, List.mem_singleton] at hname ⊢
        grind
    · rintro ⟨name, hname, rfl⟩
      simp only [List.duplicate_cons_iff, List.mem_append, List.mem_singleton] at hname ⊢
      grind

end Repetitions

theorem mem_flatten_zipWith_append {α : Type} {xs ys : List (List α)}
    (h : xs.length = ys.length) {a : α} :
    a ∈ (List.zipWith (· ++ ·) xs ys).flatten ↔ a ∈ xs.flatten ∨ a ∈ ys.flatten := by
  induction xs generalizing ys with
  | nil =>
    cases List.length_eq_zero_iff.mp h.symm
    simp
  | cons x xs ih =>
    obtain ⟨y, ys, rfl⟩ := List.exists_cons_of_length_eq_add_one h.symm
    simp only [List.zipWith_cons_cons, List.flatten_cons, List.mem_append,
      ih (Nat.succ.inj h)]
    grind

theorem firstOf_eq_ok_iff {violations : List SchemaError} :
    firstOf violations = .ok () ↔ ∀ e, e ∉ violations := by
  rw [← List.eq_nil_iff_forall_not_mem]
  cases violations <;> simp [firstOf]

namespace Schema

theorem listViolations_eq_flatMap (schemas : List Schema) :
    listViolations schemas = schemas.flatMap violations :=
  eq_flatMap_of_cons rfl (fun _ _ => rfl) schemas

theorem fieldViolations_eq_map (fields : List Field) :
    fieldViolations fields = fields.map fun field => field.schema.violations :=
  eq_map_of_cons rfl (fun _ _ => rfl) fields

/-! ### The first violation -/

/-- The symbols that the check has seen are the earlier ones. -/
theorem checkSymbols_eq_firstOf {enum : String} {seen earlier symbols : List String}
    (hseen : ∀ symbol, symbol ∈ seen ↔ symbol ∈ earlier) :
    checkSymbols enum seen symbols =
      firstOf (repetitions (.duplicateSymbol enum) earlier symbols).flatten := by
  induction symbols generalizing seen earlier with
  | nil => rfl
  | cons symbol symbols ih =>
    have hnext : ∀ other, other ∈ symbol :: seen ↔ other ∈ earlier ++ [symbol] := by
      simp [hseen, or_comm]
    rw [checkSymbols, repetitions_cons, List.flatten_cons, ih hnext]
    by_cases h : symbol ∈ earlier <;> simp [h, hseen, firstOf]

theorem checkAll_eq_firstOf {schemas : List Schema}
    (h : ∀ schema ∈ schemas, schema.check = firstOf schema.violations) :
    checkAll schemas = firstOf (listViolations schemas) := by
  induction schemas with
  | nil => rfl
  | cons schema schemas ih =>
    obtain ⟨hfirst, hothers⟩ := List.forall_mem_cons.mp h
    rw [checkAll, listViolations, hfirst]
    cases schema.violations with
    | nil => exact ih hothers
    | cons violation others => rfl

/-- The fields that the check has seen are the earlier ones. It looks at the name of a field before
it looks into its type. -/
theorem checkFields_eq_firstOf {fields : List Field}
    (h : ∀ field ∈ fields, field.schema.check = firstOf field.schema.violations)
    {record : String} {seen earlier : List String} (hseen : ∀ name, name ∈ seen ↔ name ∈ earlier) :
    checkFields record seen fields =
      firstOf (List.zipWith (· ++ ·)
        (repetitions (.duplicateField record) earlier (fields.map FieldOf.name))
        (fieldViolations fields)).flatten := by
  induction fields generalizing seen earlier with
  | nil => rfl
  | cons field fields ih =>
    obtain ⟨hfirst, hothers⟩ := List.forall_mem_cons.mp h
    have hnext : ∀ name, name ∈ field.name :: seen ↔ name ∈ earlier ++ [field.name] := by
      simp [hseen, or_comm]
    rw [checkFields, List.map_cons, repetitions_cons, fieldViolations, List.zipWith_cons_cons,
      List.flatten_cons, hfirst, ih hothers hnext]
    by_cases hname : field.name ∈ earlier
    · simp [hname, hseen, firstOf]
    · rw [if_neg (by simpa [hseen] using hname), if_neg hname, List.nil_append]
      cases field.schema.violations with
      | nil => rfl
      | cons violation others => rfl

theorem check_eq_firstOf (schema : Schema) : schema.check = firstOf schema.violations := by
  induction schema with
  | primitive type => rfl
  | named name => rfl
  | unknown value => rfl
  | enum header symbols => exact checkSymbols_eq_firstOf fun _ => Iff.rfl
  | array items ih => exact ih
  | map values ih => exact ih
  | union members ih => exact checkAll_eq_firstOf ih
  | record header fields ih _ => exact checkFields_eq_firstOf ih fun _ => Iff.rfl

/-! ### The violations of all nodes -/

/-- The violations of several parts of a schema are what the nodes of these parts repeat. -/
theorem exists_mem_violations_iff {α : Type} {l : List α} {part : α → Schema} {e : SchemaError}
    (h : ∀ a ∈ l, (e ∈ (part a).violations ↔
      ∃ node, Occurs node (part a) ∧ node.Repeats e)) :
    (∃ a ∈ l, e ∈ (part a).violations) ↔
      ∃ node, (∃ a ∈ l, Occurs node (part a)) ∧ node.Repeats e := by
  constructor
  · rintro ⟨a, ha, he⟩
    obtain ⟨node, hnode, hrepeats⟩ := (h a ha).mp he
    exact ⟨node, ⟨a, ha, hnode⟩, hrepeats⟩
  · rintro ⟨node, ⟨a, ha, hnode⟩, hrepeats⟩
    exact ⟨a, ha, (h a ha).mpr ⟨node, hnode, hrepeats⟩⟩

/-- The violations of a schema are what its nodes repeat. -/
theorem mem_violations_iff {schema : Schema} {e : SchemaError} :
    e ∈ schema.violations ↔ ∃ node, Occurs node schema ∧ node.Repeats e := by
  induction schema with
  | primitive type => simp [violations, Repeats]
  | named name => simp [violations, Repeats]
  | unknown value => simp [violations, Repeats]
  | enum header symbols =>
    rw [violations, mem_flatten_repetitions_iff]
    simp [Repeats]
  | array items ih => simp [violations, Repeats, ih, or_and_right, exists_or]
  | map values ih => simp [violations, Repeats, ih, or_and_right, exists_or]
  | union members ih =>
    simp only [violations, listViolations_eq_flatMap, List.mem_flatMap, occurs_union, or_and_right,
      exists_or, exists_eq_left, Repeats, false_or]
    exact exists_mem_violations_iff ih
  | record header fields ih _ =>
    have hlength : (repetitions (.duplicateField (header.name.getD "")) []
        (fields.map FieldOf.name)).length = (fieldViolations fields).length := by
      simp [fieldViolations_eq_map]
    have hown : e ∈ (repetitions (.duplicateField (header.name.getD "")) []
        (fields.map FieldOf.name)).flatten ↔ Repeats (.record header fields) e := by
      rw [mem_flatten_repetitions_iff]
      simp [Repeats]
    rw [violations, mem_flatten_zipWith_append hlength, hown, fieldViolations_eq_map,
      ← List.flatMap_def, List.mem_flatMap, exists_mem_violations_iff ih]
    simp only [occurs_record, or_and_right, exists_or, exists_eq_left]

/-! ### What the check finds -/

/-- The check passes exactly if no node of the schema repeats anything. -/
theorem check_eq_ok_iff_nodes {schema : Schema} :
    schema.check = .ok () ↔ ∀ node, Occurs node schema → ∀ e, ¬ node.Repeats e := by
  simp only [check_eq_firstOf, firstOf_eq_ok_iff, mem_violations_iff, not_exists, not_and]
  exact forall_comm.trans (forall_congr' fun node => forall_comm)

/-- What the check ends in is repeated by a node of the schema. -/
theorem exists_repeats_of_check {schema : Schema} {e : SchemaError} (h : schema.check = .error e) :
    ∃ node, Occurs node schema ∧ node.Repeats e := by
  refine mem_violations_iff.mp ?_
  rw [check_eq_firstOf] at h
  cases hviolations : schema.violations with
  | nil =>
    rw [hviolations] at h
    cases h
  | cons violation others =>
    rw [hviolations] at h
    cases h
    exact List.mem_cons_self

/-- **The first violation.** The check of a schema ends in the first of its violations in document
order, and succeeds if there are none. The violations are what the records and enums of the schema
repeat, at any depth. -/
theorem check_reports_first_violation (schema : Schema) :
    schema.check = firstOf schema.violations ∧
      ∀ e, e ∈ schema.violations ↔ ∃ node, Occurs node schema ∧ node.Repeats e :=
  ⟨schema.check_eq_firstOf, fun _ => mem_violations_iff⟩

/-- Inside the first field before the repetition of its name, and the repetition before what is
inside the second field. -/
example :
    let inner (name symbol : String) : Schema := .enum { name := some name } [symbol, symbol]
    let fields : List Field := [⟨"x", inner "E" "A", none⟩, ⟨"x", inner "F" "B", none⟩]
    violations (.record {} fields) =
      [.duplicateSymbol "E" "A", .duplicateField "" "x", .duplicateSymbol "F" "B"] := by
  rfl

end Schema

end AvroTypings
