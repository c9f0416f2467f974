import AvroTypings.Proofs.Grammar
import Mathlib.Data.List.Forall2

/-!
# What a value decodes to

The grammar says which values decode. This file says what they decode to, part by part: the members
of a union and the fields of a record stand beside the values they come from, in the same order. On
this rests induction over a value together with its schema, for which it does not matter how the
decoder goes about its work.

## Main definitions

* `Json.Unreadable`: the values that are kept as they are.

## Main results

* `Schema.listOfJson_eq_ok_iff`, `Schema.fieldsOfJson_eq_ok_iff`: members and fields.
* `Schema.decoding_induction`: induction over a value and the schema it decodes to.
-/

namespace AvroTypings

/-! ### Names of primitive types -/

namespace Primitive

theorem mem_all (type : Primitive) : type ∈ all := by
  cases type <;> decide

theorem ofName?_eq_none_iff {name : String} :
    ofName? name = none ↔ ∀ type : Primitive, type.name ≠ name := by
  simp [ofName?, mem_all]

@[simp] theorem ofName?_name (type : Primitive) : ofName? type.name = some type := by
  cases type <;> decide

end Primitive

/-! ### Unreadable values -/

/-- A value that has no reading as a schema and is kept as it is: neither a name nor a union, and
not an object of a known type. -/
inductive Json.Unreadable : Json → Prop
  | null : Unreadable .null
  | bool (value : Bool) : Unreadable (.bool value)
  | number (value : Json.Number) : Unreadable (.number value)
  | emptyArray : Unreadable (.array [])
  | object {members : List (String × Json)}
      (hkind : ∀ kind ∈ ["record", "enum", "array", "map"],
        members.lookup "type" ≠ some (.string kind))
      (hprimitive : ∀ type : Primitive, members.lookup "type" ≠ some (.string type.name)) :
      Unreadable (.object members)

namespace Schema

variable {members : List (String × Json)}

/-- An object is of an unsupported type exactly if it is unreadable. -/
theorem ObjectKind.of_eq_unsupported_iff :
    ObjectKind.of members = .unsupported ↔ (Json.object members).Unreadable := by
  constructor
  · intro h
    refine .object ?_ ?_
    · intro kind hkind htype
      rw [ObjectKind.of_eq htype] at h
      simp only [List.mem_cons, List.not_mem_nil, or_false] at hkind
      rcases hkind with rfl | rfl | rfl | rfl <;> cases h
    · intro type htype
      rw [ObjectKind.of_eq htype] at h
      cases type <;> cases h
  · rintro (_ | _ | _ | _ | ⟨hkind, hprimitive⟩)
    unfold ObjectKind.of
    split
    · next name hname =>
      have hne (kind : String) (hmem : kind ∈ ["record", "enum", "array", "map"]) :
          name ≠ kind := by
        rintro rfl
        exact hkind name hmem hname
      have hnone : Primitive.ofName? name = none := by
        refine Primitive.ofName?_eq_none_iff.mpr fun type htype => ?_
        exact hprimitive type (htype ▸ hname)
      simp only [ObjectKind.ofName, hne "record" (by simp), hne "enum" (by simp),
        hne "array" (by simp), hne "map" (by simp), if_false, hnone]
    · rfl

/-- An unreadable value decodes to itself. -/
theorem ofJson_of_unreadable {value : Json} (h : value.Unreadable) :
    ofJson value = .ok (.unknown value) := by
  cases h with
  | null => simp [ofJson]
  | bool value => simp [ofJson]
  | number value => simp [ofJson]
  | emptyArray => rw [ofJson]
  | object hkind hprimitive =>
    rw [ofJson, ObjectKind.of_eq_unsupported_iff.mpr (.object hkind hprimitive)]

/-! ### Members and fields -/

theorem map_eq_ok {ε α β : Type} {stage : Except ε α} {f : α → β} {b : β} :
    stage.map f = .ok b ↔ ∃ a, stage = .ok a ∧ f a = b := by
  cases stage <;> simp [Except.map]

/-- Values decode one by one to the schemas that stand beside them. -/
theorem listOfJson_eq_ok_iff {values : List Json} {schemas : List Schema} :
    listOfJson values = .ok schemas ↔
      List.Forall₂ (fun value schema => ofJson value = .ok schema) values schemas := by
  induction values generalizing schemas with
  | nil => simp [listOfJson, eq_comm]
  | cons value values ih =>
    simp only [listOfJson, bind_eq_ok, pure_eq_ok, ih, List.forall₂_cons_left_iff]
    constructor
    · rintro ⟨schema, hschema, others, hothers, rfl⟩
      exact ⟨schema, others, hschema, hothers, rfl⟩
    · rintro ⟨schema, others, hschema, hothers, rfl⟩
      exact ⟨schema, hschema, others, hothers, rfl⟩

/-- A value is a field of the given type with the name and the documentation of a field, and the
type decodes to the schema of the field. -/
def DecodesToField (item : Json) (field : Field) : Prop :=
  ∃ type, fieldForm item = .ok ⟨some field.name, some type, field.doc⟩ ∧
    ofJson type = .ok field.schema

/-- The items of a record decode one by one to the fields that stand beside them. -/
theorem fieldsOfJson_eq_ok_iff {element : String} {items : List Json} {fields : List Field} :
    fieldsOfJson element items = .ok fields ↔ List.Forall₂ DecodesToField items fields := by
  induction items generalizing fields with
  | nil => simp [fieldsOfJson, eq_comm]
  | cons item items ih =>
    rw [fieldsOfJson, List.forall₂_cons_left_iff]
    split
    · next e hform => simp [DecodesToField, hform]
    · next form hform =>
      obtain ⟨name, type, doc⟩ := form
      cases name with
      | none => simp [DecodesToField, hform]
      | some name =>
        cases type with
        | none => simp [DecodesToField, hform]
        | some type =>
          simp only [bind_eq_ok, pure_eq_ok, ih]
          constructor
          · rintro ⟨schema, hschema, others, hothers, rfl⟩
            exact ⟨⟨name, schema, doc⟩, others, ⟨type, hform, hschema⟩, hothers, rfl⟩
          · rintro ⟨⟨name', schema, doc'⟩, others, ⟨type', hform', hschema⟩, hothers, rfl⟩
            cases hform.symm.trans hform'
            exact ⟨schema, hschema, others, hothers, rfl⟩

theorem DecodesToField.exists_type {item : Json} {field : Field} (h : DecodesToField item field) :
    ∃ type, FieldWithType item type ∧ ofJson type = .ok field.schema := by
  obtain ⟨type, hform, hschema⟩ := h
  exact ⟨type, fieldWithType_iff.mpr ⟨field.name, field.doc, hform⟩, hschema⟩

/-! ### Objects -/

theorem exists_of_ofJson_record {schema : Schema} (hkind : ObjectKind.of members = .record)
    (h : ofJson (.object members) = .ok schema) :
    ∃ header items fields, OptionalItems (members.lookup "fields") items ∧
      List.Forall₂ DecodesToField items fields ∧ schema = .record header fields := by
  rw [ofJson, hkind] at h
  obtain ⟨header, hheader, h⟩ := bind_eq_ok.mp h
  obtain ⟨fields, hfields, h⟩ := bind_eq_ok.mp h
  obtain ⟨-, hsequence⟩ := succeeds_recordHeader.mp ⟨header, hheader⟩
  obtain ⟨items, hitems, -⟩ := succeeds_checkSequence.mp hsequence
  rw [fieldItems_eq hitems, fieldsOfJson_eq_ok_iff] at hfields
  exact ⟨header, items, fields, hitems, hfields, (pure_eq_ok.mp h).symm⟩

theorem exists_of_enumOf {schema : Schema} (h : enumOf members = .ok schema) :
    ∃ header symbols, schema = .enum header symbols := by
  obtain ⟨doc, -, h⟩ := bind_eq_ok.mp h
  obtain ⟨name, -, h⟩ := bind_eq_ok.mp h
  obtain ⟨scope, -, h⟩ := bind_eq_ok.mp h
  obtain ⟨symbols, -, h⟩ := bind_eq_ok.mp h
  cases symbols with
  | none => exact absurd h throw_ne_ok
  | some symbols => exact ⟨_, symbols, (pure_eq_ok.mp h).symm⟩

/-- The schema around the one part that an array or a map has. -/
def ofPart (wrap : Schema → Schema) (absent : DecodeError) : Option Json → Except DecodeError Schema
  | some part => (ofJson part).map wrap
  | none => .error absent

theorem ofPart_eq_ok_iff {wrap : Schema → Schema} {absent : DecodeError} {part : Option Json}
    {schema : Schema} :
    ofPart wrap absent part = .ok schema ↔
      ∃ value inner, part = some value ∧ ofJson value = .ok inner ∧ wrap inner = schema := by
  cases part with
  | none => simp [ofPart]
  | some value => simp [ofPart, map_eq_ok]

theorem ofJson_array (hkind : ObjectKind.of members = .array) :
    ofJson (.object members) =
      ofPart .array (.missing "array" "items") (members.lookup "items") := by
  rw [ofJson, hkind]
  dsimp only
  split <;> next h => rw [h, ofPart]

theorem ofJson_map (hkind : ObjectKind.of members = .map) :
    ofJson (.object members) =
      ofPart .map (.missing "map" "values") (members.lookup "values") := by
  rw [ofJson, hkind]
  dsimp only
  split <;> next h => rw [h, ofPart]

/-! ### Induction -/

theorem forall₂_of_mem {α β : Type} {r s : α → β → Prop} {l : List α} {l' : List β}
    (h : List.Forall₂ r l l') (himp : ∀ a ∈ l, ∀ b, r a b → s a b) : List.Forall₂ s l l' := by
  have hmem := (List.forall₂_and_left l l').mpr ⟨fun _ ha => ha, h⟩
  exact hmem.imp fun a b hab => himp a hab.1 b hab.2

/-- Induction over a value and the schema it decodes to. -/
@[elab_as_elim]
theorem decoding_induction {motive : Json → Schema → Prop} {value : Json} {schema : Schema}
    (h : ofJson value = .ok schema)
    (name : ∀ name, motive (.string name) (ofName name))
    (unknown : ∀ value, value.Unreadable → motive value (.unknown value))
    (primitive : ∀ members type, motive (.object members) (.primitive type))
    (union : ∀ items schemas, items ≠ [] → List.Forall₂ motive items schemas →
      motive (.array items) (.union schemas))
    (array : ∀ members items schema, members.lookup "items" = some items → motive items schema →
      motive (.object members) (.array schema))
    (map : ∀ members values schema, members.lookup "values" = some values → motive values schema →
      motive (.object members) (.map schema))
    (enum : ∀ members header symbols, motive (.object members) (.enum header symbols))
    (record : ∀ members header items fields, OptionalItems (members.lookup "fields") items →
      List.Forall₂ (fun item (field : Field) =>
        ∃ type, FieldWithType item type ∧ ofJson type = .ok field.schema ∧
          motive type field.schema) items fields →
      motive (.object members) (.record header fields)) :
    motive value schema := by
  -- on the size of the value: its parts are looked up by name, so they are not its constructor's
  -- arguments
  induction hsize : sizeOf value using Nat.strongRecOn generalizing value schema with
  | ind size ih =>
    subst hsize
    have smaller {part : Json} {inner : Schema} (hpart : sizeOf part < sizeOf value)
        (hinner : ofJson part = .ok inner) : motive part inner := ih _ hpart hinner rfl
    cases value with
    | string text =>
      rw [ofJson] at h
      cases h
      exact name text
    | array items =>
      cases items with
      | nil =>
        rw [ofJson] at h
        cases h
        exact unknown _ .emptyArray
      | cons item items =>
        rw [ofJson] at h
        obtain ⟨schemas, hschemas, rfl⟩ := map_eq_ok.mp h
        refine union _ schemas (List.cons_ne_nil _ _) ?_
        refine forall₂_of_mem (listOfJson_eq_ok_iff.mp hschemas) fun part hmem inner => ?_
        have := List.sizeOf_lt_of_mem hmem
        refine smaller ?_
        simp only [Json.array.sizeOf_spec]
        omega
    | object members =>
      have inside {part : Json} (hpart : sizeOf part < sizeOf members) :
          sizeOf part < sizeOf (Json.object members) := by
        simp only [Json.object.sizeOf_spec]
        omega
      cases hkind : ObjectKind.of members with
      | record =>
        obtain ⟨header, items, fields, hitems, hfields, rfl⟩ := exists_of_ofJson_record hkind h
        refine record members header items fields hitems ?_
        refine forall₂_of_mem hfields fun item hmem field hfield => ?_
        obtain ⟨type, htype, hschema⟩ := hfield.exists_type
        have hitem := sizeOf_lt_of_optionalItems hitems hmem
        have hpart := Nat.lt_trans (sizeOf_lt_of_fieldWithType htype) hitem
        exact ⟨type, htype, hschema, smaller (inside hpart) hschema⟩
      | enum =>
        rw [ofJson, hkind] at h
        obtain ⟨header, symbols, rfl⟩ := exists_of_enumOf h
        exact enum members header symbols
      | array =>
        rw [ofJson_array hkind] at h
        obtain ⟨items, inner, hitems, hinner, rfl⟩ := ofPart_eq_ok_iff.mp h
        have hpart := inside (Json.sizeOf_lt_of_lookup hitems)
        exact array members items inner hitems (smaller hpart hinner)
      | map =>
        rw [ofJson_map hkind] at h
        obtain ⟨values, inner, hvalues, hinner, rfl⟩ := ofPart_eq_ok_iff.mp h
        have hpart := inside (Json.sizeOf_lt_of_lookup hvalues)
        exact map members values inner hvalues (smaller hpart hinner)
      | primitive type =>
        rw [ofJson, hkind] at h
        cases h
        exact primitive members type
      | unsupported =>
        have hvalue := ObjectKind.of_eq_unsupported_iff.mp hkind
        cases (ofJson_of_unreadable hvalue).symm.trans h
        exact unknown _ hvalue
    | null =>
      cases (ofJson_of_unreadable .null).symm.trans h
      exact unknown _ .null
    | bool value =>
      cases (ofJson_of_unreadable (.bool value)).symm.trans h
      exact unknown _ (.bool value)
    | number value =>
      cases (ofJson_of_unreadable (.number value)).symm.trans h
      exact unknown _ (.number value)

end Schema

end AvroTypings
