import AvroTypings.Proofs.Decoding
import AvroTypings.Proofs.Sites

/-!
# The schemas that values decode to

Not every schema tree is the reading of a value: a union that was read has members, a reference that
was read is no primitive name, and what was kept as it is has no other reading. A tree like that is
in normal form. Conversely, a tree in normal form is written down as a value that decodes to it,
with one exception. An attribute that is `null` counts as absent, so the type of a field is never
the unknown value `null`, although such a type can stand everywhere else.

## Main definitions

* `Schema.Throughout`: a property of all nodes of a schema.
* `Schema.IsNormal`: the schemas in normal form.
* `Schema.FieldsTyped`: no field of a record has the unknown value `null` for its type.
* `Schema.toJson`: a schema written down as a value.

## Main results

* `Schema.isNormal_and_fieldsTyped_of_ofJson`: values decode to schemas in normal form whose fields
  have types.
* `Schema.ofJson_toJson`: such a schema decodes from the value it is written as.
-/

namespace AvroTypings

theorem FieldWithType.type_ne_null {item type : Json} (h : FieldWithType item type) :
    type ≠ .null := by
  cases h <;> assumption

namespace Schema

/-! ### Properties of all nodes -/

/-- All nodes of a schema have a property. -/
def Throughout (P : Schema → Prop) (schema : Schema) : Prop := ∀ node, Occurs node schema → P node

section Throughout

variable {P : Schema → Prop}

@[simp] theorem throughout_primitive {type : Primitive} :
    Throughout P (.primitive type) ↔ P (.primitive type) := by
  simp [Throughout]

@[simp] theorem throughout_named {name : String} :
    Throughout P (.named name) ↔ P (.named name) := by
  simp [Throughout]

@[simp] theorem throughout_unknown {value : Json} :
    Throughout P (.unknown value) ↔ P (.unknown value) := by
  simp [Throughout]

@[simp] theorem throughout_enum {header : Header} {symbols : List String} :
    Throughout P (.enum header symbols) ↔ P (.enum header symbols) := by
  simp [Throughout]

@[simp] theorem throughout_array {items : Schema} :
    Throughout P (.array items) ↔ P (.array items) ∧ Throughout P items := by
  simp [Throughout, or_imp, forall_and]

@[simp] theorem throughout_map {values : Schema} :
    Throughout P (.map values) ↔ P (.map values) ∧ Throughout P values := by
  simp [Throughout, or_imp, forall_and]

@[simp] theorem throughout_union {members : List Schema} :
    Throughout P (.union members) ↔
      P (.union members) ∧ ∀ member ∈ members, Throughout P member := by
  simp only [Throughout, occurs_union, or_imp, forall_and, forall_eq]
  grind

@[simp] theorem throughout_record {header : Header} {fields : List Field} :
    Throughout P (.record header fields) ↔
      P (.record header fields) ∧ ∀ field ∈ fields, Throughout P field.schema := by
  simp only [Throughout, occurs_record, or_imp, forall_and, forall_eq]
  grind

end Throughout

/-! ### Normal forms -/

/-- What a node is in a schema that was read from a value: a union has members, a reference is no
primitive name, and a value that is kept has no other reading. -/
def NormalNode : Schema → Prop
  | .union members => members ≠ []
  | .named name => ∀ type : Primitive, type.name ≠ name
  | .unknown value => value.Unreadable
  | _ => True

/-- A schema is in normal form. -/
def IsNormal (schema : Schema) : Prop := schema.Throughout NormalNode

/-- No field of a node has the unknown value `null` for its type. -/
def TypedNode : Schema → Prop
  | .record _ fields => ∀ field ∈ fields, field.schema ≠ .unknown .null
  | _ => True

/-- No field of a record has the unknown value `null` for its type. -/
def FieldsTyped (schema : Schema) : Prop := schema.Throughout TypedNode

theorem isNormal_ofName (name : String) : (ofName name).IsNormal := by
  unfold ofName
  split
  · simp [IsNormal, NormalNode]
  · next h => simpa [IsNormal, NormalNode] using Primitive.ofName?_eq_none_iff.mp h

theorem fieldsTyped_ofName (name : String) : (ofName name).FieldsTyped := by
  unfold ofName
  split <;> simp [FieldsTyped, TypedNode]

theorem forall_mem_of_forall₂ {α β : Type} {p : β → Prop} {l : List α} {l' : List β}
    (h : List.Forall₂ (fun _ b => p b) l l') : ∀ b ∈ l', p b := by
  induction h with
  | nil => simp
  | cons hfirst _ ih => exact List.forall_mem_cons.mpr ⟨hfirst, ih⟩

theorem ofName_ne_unknown (name : String) (value : Json) : ofName name ≠ .unknown value := by
  unfold ofName
  split <;> nofun

/-- A value that is kept as it is, is the value that was read. -/
theorem eq_of_ofJson_unknown {value kept : Json} (h : ofJson value = .ok (.unknown kept)) :
    value = kept := by
  generalize hschema : Schema.unknown kept = schema at h
  revert hschema
  refine decoding_induction h ?name ?unknown ?primitive ?union ?array ?map ?enum ?record
  case name => exact fun name hname => absurd hname.symm (ofName_ne_unknown name kept)
  case unknown => exact fun value _ hvalue => (Schema.unknown.inj hvalue).symm
  all_goals
    intros
    contradiction

/-- A value decodes to a schema in normal form whose fields all have types. -/
theorem isNormal_and_fieldsTyped_of_ofJson {value : Json} {schema : Schema}
    (h : ofJson value = .ok schema) : schema.IsNormal ∧ schema.FieldsTyped := by
  refine decoding_induction h ?name ?unknown ?primitive ?union ?array ?map ?enum ?record
  case name =>
    intro name
    exact ⟨isNormal_ofName name, fieldsTyped_ofName name⟩
  case unknown =>
    intro value hvalue
    simpa [IsNormal, FieldsTyped, NormalNode, TypedNode] using hvalue
  case primitive =>
    intro members type
    simp [IsNormal, FieldsTyped, NormalNode, TypedNode]
  case union =>
    intro items schemas hitems hschemas
    have hne : schemas ≠ [] := by
      rintro rfl
      cases hschemas
      exact hitems rfl
    have hmembers := forall_mem_of_forall₂ hschemas
    simp only [IsNormal, FieldsTyped, throughout_union]
    exact ⟨⟨hne, fun member hmem => (hmembers member hmem).1⟩,
      trivial, fun member hmem => (hmembers member hmem).2⟩
  case array =>
    intro members items schema _ ih
    simpa [IsNormal, FieldsTyped, NormalNode, TypedNode] using ih
  case map =>
    intro members values schema _ ih
    simpa [IsNormal, FieldsTyped, NormalNode, TypedNode] using ih
  case enum =>
    intro members header symbols
    simp [IsNormal, FieldsTyped, NormalNode, TypedNode]
  case record =>
    intro members header items fields _ hfields
    have hparts : ∀ field ∈ fields, field.schema ≠ .unknown .null ∧
        field.schema.IsNormal ∧ field.schema.FieldsTyped := by
      refine forall_mem_of_forall₂ (hfields.imp fun item field hfield => ?_)
      obtain ⟨type, htype, hschema, ih⟩ := hfield
      refine ⟨?_, ih⟩
      -- the unknown value `null` is only read from itself, which is no type of a field
      intro hnull
      rw [hnull] at hschema
      exact htype.type_ne_null (eq_of_ofJson_unknown hschema)
    simp only [IsNormal, FieldsTyped, throughout_record]
    exact ⟨⟨trivial, fun field hmem => (hparts field hmem).2.1⟩,
      fun field hmem => (hparts field hmem).1, fun field hmem => (hparts field hmem).2.2⟩

/-! ### Schemas written down -/

/-- The member of an object for an attribute that may be absent. -/
def optionalMember (key : String) (text : Option String) : List (String × Json) :=
  text.toList.map fun text => (key, .string text)

/-- The members of an object for a header. -/
def headerMembers (header : Header) : List (String × Json) :=
  optionalMember "name" header.name ++ optionalMember "namespace" header.scope
    ++ optionalMember "doc" header.doc

/-- The object of a field. -/
def fieldObject (name : String) (type : Json) (doc : Option String) : Json :=
  .object (("name", .string name) :: ("type", type) :: optionalMember "doc" doc)

/-- The members of an object of the given kind that has a header and one attribute besides. -/
def kindMembers (kind key : String) (items : List Json) (header : Header) :
    List (String × Json) :=
  ("type", .string kind) :: (key, .array items) :: headerMembers header

mutual

/-- A schema written down as a value. -/
def toJson : Schema → Json
  | .primitive type => .string type.name
  | .named name => .string name
  | .union members => .array (listToJson members)
  | .array items => .object [("type", .string "array"), ("items", toJson items)]
  | .map values => .object [("type", .string "map"), ("values", toJson values)]
  | .enum header symbols => .object (kindMembers "enum" "symbols" (symbols.map .string) header)
  | .record header fields => .object (kindMembers "record" "fields" (fieldsToJson fields) header)
  | .unknown value => value

/-- Schemas written down one by one. -/
def listToJson : List Schema → List Json
  | [] => []
  | schema :: schemas => toJson schema :: listToJson schemas

/-- Fields written down one by one. -/
def fieldsToJson : List Field → List Json
  | [] => []
  | ⟨name, schema, doc⟩ :: fields =>
    fieldObject name (toJson schema) doc :: fieldsToJson fields

end

theorem listToJson_eq_map (schemas : List Schema) : listToJson schemas = schemas.map toJson :=
  eq_map_of_cons rfl (fun _ _ => rfl) schemas

theorem fieldsToJson_eq_map (fields : List Field) :
    fieldsToJson fields =
      fields.map fun field => fieldObject field.name field.schema.toJson field.doc :=
  eq_map_of_cons rfl (fun _ _ => rfl) fields

/-! ### Reading what was written -/

@[simp] theorem lookup_optionalMember (key other : String) (text : Option String) :
    (optionalMember key text).lookup other =
      if other = key then text.map Json.string else none := by
  cases text with
  | none => simp [optionalMember]
  | some text =>
    by_cases h : other = key
    · simp [optionalMember, h]
    · simp [optionalMember, h, List.lookup_cons, beq_false_of_ne h]

@[simp] theorem textAttribute_map_string (text : Option String) :
    textAttribute (text.map Json.string) = .ok text := by
  cases text <;> rfl

@[simp] theorem textAttribute_string (text : String) :
    textAttribute (some (.string text)) = .ok (some text) := rfl

theorem fieldForm_fieldObject {name : String} {type : Json} {doc : Option String}
    (hnull : type ≠ .null) :
    fieldForm (fieldObject name type doc) = .ok ⟨some name, some type, doc⟩ := by
  have htype : anyAttribute (some type) = some type := anyAttribute_eq_some.mpr ⟨rfl, hnull⟩
  simp [fieldForm, fieldObject, List.lookup_cons, htype, bind_eq_ok]

section KindMembers

variable (kind : String) (items : List Json) (header : Header)

theorem objectKind_kindMembers (key : String) :
    ObjectKind.of (kindMembers kind key items header) = ObjectKind.ofName kind :=
  ObjectKind.of_eq (by simp [kindMembers])

theorem enumOf_kindMembers (symbols : List String) :
    enumOf (kindMembers kind "symbols" (symbols.map .string) header) =
      .ok (.enum header symbols) := by
  have hsymbols : (symbols.map Json.string).mapM symbolOf = .ok symbols := by
    induction symbols with
    | nil => rfl
    | cons symbol symbols ih => simp [symbolOf, ih, bind_eq_ok]
  simp [enumOf, kindMembers, headerMembers, List.lookup_cons, List.lookup_append, bind_eq_ok,
    pure_eq_ok, symbolsAttribute, hsymbols, Except.map]

theorem recordHeader_kindMembers (hitems : ∀ item ∈ items, Succeeds (fieldForm item)) :
    recordHeader (kindMembers kind "fields" items header) = .ok header := by
  obtain ⟨_, hforms⟩ : Succeeds (items.forM fun item => discard (fieldForm item)) :=
    succeeds_forM.mpr fun item hmem => succeeds_discard.mpr (hitems item hmem)
  simp [recordHeader, kindMembers, headerMembers, List.lookup_cons, List.lookup_append, bind_eq_ok,
    checkSequence, hforms]

end KindMembers

/-- A schema in normal form whose fields have types decodes from the value it is written as. -/
theorem ofJson_toJson {schema : Schema} (hnormal : schema.IsNormal) (htyped : schema.FieldsTyped) :
    ofJson schema.toJson = .ok schema := by
  induction schema with
  | primitive type => simp [toJson, ofJson, ofName]
  | named name =>
    have hname : Primitive.ofName? name = none :=
      Primitive.ofName?_eq_none_iff.mpr (throughout_named.mp hnormal)
    simp [toJson, ofJson, ofName, hname]
  | unknown value => exact ofJson_of_unreadable (throughout_unknown.mp hnormal)
  | enum header symbols =>
    rw [toJson, ofJson, objectKind_kindMembers]
    exact enumOf_kindMembers "enum" header symbols
  | array items ih =>
    have hitems := ih (throughout_array.mp hnormal).2 (throughout_array.mp htyped).2
    rw [toJson, ofJson_array rfl]
    exact ofPart_eq_ok_iff.mpr ⟨_, items, rfl, hitems, rfl⟩
  | map values ih =>
    have hvalues := ih (throughout_map.mp hnormal).2 (throughout_map.mp htyped).2
    rw [toJson, ofJson_map rfl]
    exact ofPart_eq_ok_iff.mpr ⟨_, values, rfl, hvalues, rfl⟩
  | union members ih =>
    obtain ⟨hne, hnormal⟩ := throughout_union.mp hnormal
    obtain ⟨-, htyped⟩ := throughout_union.mp htyped
    have hmembers : listOfJson (members.map toJson) = .ok members := by
      rw [listOfJson_eq_ok_iff, List.forall₂_map_left_iff, List.forall₂_same]
      exact fun member hmem => ih member hmem (hnormal member hmem) (htyped member hmem)
    cases members with
    | nil => exact absurd rfl hne
    | cons member members =>
      rw [toJson, listToJson_eq_map, List.map_cons, ofJson, ← List.map_cons, hmembers]
      rfl
  | record header fields ih _ =>
    obtain ⟨-, hnormal⟩ := throughout_record.mp hnormal
    obtain ⟨hfieldTypes, htyped⟩ := throughout_record.mp htyped
    have hdecode : ∀ field ∈ fields, DecodesToField
        (fieldObject field.name field.schema.toJson field.doc) field := by
      intro field hmem
      have hschema := ih field hmem (hnormal field hmem) (htyped field hmem)
      -- a type that is written as `null` would be read as no type
      refine ⟨field.schema.toJson, fieldForm_fieldObject fun hnull => ?_, hschema⟩
      rw [hnull, ofJson_of_unreadable .null] at hschema
      exact hfieldTypes field hmem (Except.ok.inj hschema).symm
    have hforms : ∀ item ∈ fieldsToJson fields, Succeeds (fieldForm item) := by
      rw [fieldsToJson_eq_map, List.forall_mem_map]
      intro field hmem
      obtain ⟨type, hform, -⟩ := hdecode field hmem
      exact ⟨_, hform⟩
    have hfields : fieldsOfJson (header.label "record") (fieldsToJson fields) = .ok fields := by
      rw [fieldsOfJson_eq_ok_iff, fieldsToJson_eq_map, List.forall₂_map_left_iff, List.forall₂_same]
      exact hdecode
    rw [toJson, ofJson, objectKind_kindMembers]
    exact bind_eq_ok.mpr ⟨header, recordHeader_kindMembers _ _ _ hforms,
      bind_eq_ok.mpr ⟨fields, hfields, rfl⟩⟩

/-- **The schemas that values decode to.** A schema is read from some value if and only if it is in
normal form and no field of a record has the unknown value `null` for its type; and then it is read
from the value it is written as. -/
theorem exists_ofJson_iff_isNormal (schema : Schema) :
    ((∃ value, ofJson value = .ok schema) ↔ schema.IsNormal ∧ schema.FieldsTyped) ∧
    (schema.IsNormal ∧ schema.FieldsTyped → ofJson schema.toJson = .ok schema) := by
  have hwritten : schema.IsNormal ∧ schema.FieldsTyped → ofJson schema.toJson = .ok schema :=
    fun h => ofJson_toJson h.1 h.2
  refine ⟨⟨?_, fun h => ⟨schema.toJson, hwritten h⟩⟩, hwritten⟩
  rintro ⟨value, h⟩
  exact isNormal_and_fieldsTyped_of_ofJson h

/-- A record with a field of the unknown type `null` is in normal form, but no value decodes to
it. -/
theorem field_of_unknown_null_is_not_read :
    let schema : Schema := .record { name := some "R" } [⟨"x", .unknown .null, none⟩]
    schema.IsNormal ∧ ∀ value, ofJson value ≠ .ok schema := by
  intro schema
  constructor
  · simpa [schema, IsNormal, NormalNode] using Json.Unreadable.null
  · intro value h
    have htyped := (isNormal_and_fieldsTyped_of_ofJson h).2
    exact (throughout_record.mp htyped).1 _ List.mem_cons_self rfl

end Schema

end AvroTypings
