import AvroTypings.Proofs.Decoding

/-!
# Decorations of a value

A schema written as a value may carry decorations: attributes such as `default`, `aliases` or
`logicalType` that decoding does not look at, and objects around the bare name of a primitive type.
They can stand wherever a schema can: in the members of a union, the items of an array, the values
of a map and the types of fields. This file takes all of them off and proves that nothing changes
for the decoder, neither the schema nor the error that it ends in.

## Main definitions

* `Schema.ObjectKind.attributes`, `Schema.fieldAttributes`: the attributes that decoding looks at.
* `Schema.undecorated`: a value without its decorations.
* `Schema.Undecorated`: the values that have none.

## Main results

* `Schema.fieldForm_undecoratedField`: the form of a field without decorations.
* `Schema.ofJson_undecorated`: a value decodes as it does without its decorations.
* `Schema.undecorated_undecorated`, `Schema.Undecorated.undecorated_eq`: all decorations go, and
  nothing but decorations.
-/

namespace AvroTypings

namespace Schema

/-- The attributes that decoding looks at in an object of the given kind. Of an object around a
primitive name nothing is kept, and an unsupported object is kept whole. -/
def ObjectKind.attributes : ObjectKind → List String
  | .record => ["type", "name", "namespace", "doc", "fields"]
  | .enum => ["type", "name", "namespace", "doc", "symbols"]
  | .array => ["type", "items"]
  | .map => ["type", "values"]
  | .primitive _ => []
  | .unsupported => []

/-- The attributes that decoding looks at in a field. -/
def fieldAttributes : List String := ["name", "type", "doc"]

/-- The members of an object with one of the given names. -/
def only (names : List String) (members : List (String × Json)) : List (String × Json) :=
  members.filter fun member => names.contains member.1

mutual

/-- A value without decorations, at the value itself and at every schema inside it. -/
def undecorated : Json → Json
  | .array items => .array (undecoratedItems items)
  | .object members =>
    match ObjectKind.of members with
    | .record => .object (only ObjectKind.record.attributes (undecoratedFieldsIn members))
    | .enum => .object (only ObjectKind.enum.attributes members)
    | .array => .object (only ObjectKind.array.attributes (undecoratedAt "items" members))
    | .map => .object (only ObjectKind.map.attributes (undecoratedAt "values" members))
    | .primitive type => .string type.name
    | .unsupported => .object members
  | value => value

/-- Values without decorations, one by one. -/
def undecoratedItems : List Json → List Json
  | [] => []
  | item :: items => undecorated item :: undecoratedItems items

/-- The members of an object, where the schema in the member of the given name has no
decorations. -/
def undecoratedAt (key : String) : List (String × Json) → List (String × Json)
  | [] => []
  | (name, value) :: members =>
    (name, if name = key then undecorated value else value) :: undecoratedAt key members

/-- A field without decorations, whether it is an object or an array. -/
def undecoratedField : Json → Json
  | .object members => .object (only fieldAttributes (undecoratedAt "type" members))
  | .array (name :: type :: more) => .array (name :: undecorated type :: more)
  | value => value

/-- Fields without decorations, one by one. -/
def undecoratedFieldItems : List Json → List Json
  | [] => []
  | item :: items => undecoratedField item :: undecoratedFieldItems items

/-- The fields of a record without decorations. What is not a sequence stays as it is. -/
def undecoratedFields : Json → Json
  | .array items => .array (undecoratedFieldItems items)
  | value => value

/-- The members of a record, where the fields have no decorations. -/
def undecoratedFieldsIn : List (String × Json) → List (String × Json)
  | [] => []
  | (name, value) :: members =>
    (name, if name = "fields" then undecoratedFields value else value)
      :: undecoratedFieldsIn members

end

/-! ### Members -/

/-- The members of an object, with a function applied to the one of the given name. -/
def changedAt (key : String) (f : Json → Json) (members : List (String × Json)) :
    List (String × Json) :=
  members.map fun member => (member.1, if member.1 = key then f member.2 else member.2)

theorem undecoratedItems_eq_map (items : List Json) :
    undecoratedItems items = items.map undecorated :=
  eq_map_of_cons rfl (fun _ _ => rfl) items

theorem undecoratedFieldItems_eq_map (items : List Json) :
    undecoratedFieldItems items = items.map undecoratedField :=
  eq_map_of_cons rfl (fun _ _ => rfl) items

theorem undecoratedAt_eq (key : String) (members : List (String × Json)) :
    undecoratedAt key members = changedAt key undecorated members :=
  eq_map_of_cons rfl (fun _ _ => rfl) members

theorem undecoratedFieldsIn_eq (members : List (String × Json)) :
    undecoratedFieldsIn members = changedAt "fields" undecoratedFields members :=
  eq_map_of_cons rfl (fun _ _ => rfl) members

@[simp] theorem lookup_changedAt (key name : String) (f : Json → Json)
    (members : List (String × Json)) :
    (changedAt key f members).lookup name =
      if name = key then (members.lookup name).map f else members.lookup name := by
  induction members with
  | nil => simp [changedAt]
  | cons member members ih =>
    rw [changedAt, List.map_cons, List.lookup_cons, List.lookup_cons]
    by_cases hname : name = member.1
    · rw [hname, beq_self_eq_true]
      exact apply_ite some _ _ _
    · rw [beq_false_of_ne hname]
      exact ih

@[simp] theorem lookup_only (names : List String) (name : String)
    (members : List (String × Json)) :
    (only names members).lookup name = if name ∈ names then members.lookup name else none := by
  induction members with
  | nil => simp [only]
  | cons member members ih =>
    rw [only] at ih ⊢
    by_cases hmember : member.1 ∈ names
    · rw [List.filter_cons_of_pos (by simpa using hmember), List.lookup_cons, List.lookup_cons, ih]
      by_cases hname : name = member.1
      · simp [hname, hmember]
      · simp [beq_false_of_ne hname]
    · have hne (h : name ∈ names) : name ≠ member.1 := fun heq => hmember (heq ▸ h)
      rw [List.filter_cons_of_neg (by simpa using hmember), ih, List.lookup_cons]
      split
      · next h => rw [beq_false_of_ne (hne h)]
      · rfl

theorem mem_only_iff {names : List String} {members : List (String × Json)}
    {member : String × Json} :
    member ∈ only names members ↔ member ∈ members ∧ member.1 ∈ names := by
  simp [only]

theorem only_eq_self {names : List String} {members : List (String × Json)}
    (h : ∀ member ∈ members, member.1 ∈ names) : only names members = members :=
  List.filter_eq_self.mpr fun member hmem => by simpa using h member hmem

/-- A member under the changed name comes from one under the same name. -/
theorem exists_of_mem_changedAt {key : String} {f : Json → Json} {members : List (String × Json)}
    {value : Json} (h : (key, value) ∈ changedAt key f members) :
    ∃ part, (key, part) ∈ members ∧ f part = value := by
  obtain ⟨⟨name, part⟩, hmem, heq⟩ := List.mem_map.mp h
  obtain ⟨rfl, rfl⟩ := Prod.mk.inj heq
  exact ⟨part, hmem, (if_pos rfl).symm⟩

theorem changedAt_eq_self {key : String} {f : Json → Json} {members : List (String × Json)}
    (h : ∀ value, (key, value) ∈ members → f value = value) :
    changedAt key f members = members := by
  refine (List.map_congr_left fun member hmem => ?_).trans (List.map_id members)
  obtain ⟨name, value⟩ := member
  by_cases hname : name = key
  · subst hname
    simp [h value hmem]
  · simp [hname]

variable {members : List (String × Json)}

theorem objectKind_only {names : List String} (h : "type" ∈ names) :
    ObjectKind.of (only names members) = ObjectKind.of members := by
  simp [ObjectKind.of, h]

theorem objectKind_changedAt {key : String} {f : Json → Json} (h : "type" ≠ key) :
    ObjectKind.of (changedAt key f members) = ObjectKind.of members := by
  simp [ObjectKind.of, h]

/-! ### Objects -/

/-- An object without decorations, by its kind. -/
theorem undecorated_object :
    undecorated (.object members) =
      match ObjectKind.of members with
      | .record =>
        .object (only ObjectKind.record.attributes (changedAt "fields" undecoratedFields members))
      | .enum => .object (only ObjectKind.enum.attributes members)
      | .array =>
        .object (only ObjectKind.array.attributes (changedAt "items" undecorated members))
      | .map => .object (only ObjectKind.map.attributes (changedAt "values" undecorated members))
      | .primitive type => .string type.name
      | .unsupported => .object members := by
  rw [undecorated, undecoratedFieldsIn_eq, undecoratedAt_eq, undecoratedAt_eq]

theorem undecorated_record (hkind : ObjectKind.of members = .record) :
    undecorated (.object members) =
      .object (only ObjectKind.record.attributes
        (changedAt "fields" undecoratedFields members)) := by
  rw [undecorated_object, hkind]

theorem undecorated_enum (hkind : ObjectKind.of members = .enum) :
    undecorated (.object members) = .object (only ObjectKind.enum.attributes members) := by
  rw [undecorated_object, hkind]

theorem undecorated_array (hkind : ObjectKind.of members = .array) :
    undecorated (.object members) =
      .object (only ObjectKind.array.attributes (changedAt "items" undecorated members)) := by
  rw [undecorated_object, hkind]

theorem undecorated_map (hkind : ObjectKind.of members = .map) :
    undecorated (.object members) =
      .object (only ObjectKind.map.attributes (changedAt "values" undecorated members)) := by
  rw [undecorated_object, hkind]

theorem undecorated_primitive {type : Primitive} (hkind : ObjectKind.of members = .primitive type) :
    undecorated (.object members) = .string type.name := by
  rw [undecorated_object, hkind]

theorem undecorated_unsupported (hkind : ObjectKind.of members = .unsupported) :
    undecorated (.object members) = .object members := by
  rw [undecorated_object, hkind]

/-- The kind of an object stays when attributes other than its type are changed or dropped. -/
theorem objectKind_undecorated {names : List String} {key : String} {f : Json → Json}
    {kind : ObjectKind} (hkind : ObjectKind.of members = kind) (hkept : "type" ∈ names)
    (hkey : "type" ≠ key) : ObjectKind.of (only names (changedAt key f members)) = kind := by
  rw [objectKind_only hkept, objectKind_changedAt hkey, hkind]

/-! ### Fields -/

/-- The form of a field whose type has no decorations. -/
def FieldForm.undecorated (form : FieldForm) : FieldForm :=
  { form with type := form.type.map Schema.undecorated }

theorem undecorated_eq_null_iff {value : Json} : undecorated value = .null ↔ value = .null := by
  cases value with
  | object members =>
    rw [undecorated_object]
    split <;> simp
  | _ => simp [undecorated]

theorem anyAttribute_map_undecorated (value : Option Json) :
    anyAttribute (value.map undecorated) = (anyAttribute value).map undecorated := by
  cases value with
  | none => rfl
  | some value =>
    by_cases hnull : value = .null
    · rw [hnull]
      rfl
    · have hkept : undecorated value ≠ .null := mt undecorated_eq_null_iff.mp hnull
      rw [anyAttribute_eq_some.mpr ⟨rfl, hnull⟩, Option.map_some,
        anyAttribute_eq_some.mpr ⟨rfl, hkept⟩]

theorem fieldOfItems_cons_cons_cons (name type doc : Json) (more : List Json) :
    fieldOfItems (name :: type :: doc :: more) = (do
      let name ← textAttribute (some name)
      let doc ← textAttribute (some doc)
      if more.isEmpty then return ⟨name, anyAttribute (some type), doc⟩
      else throw (.wrongLength (3 + more.length) .endOfField)) :=
  rfl

/-- A field given as an array is looked at in the same order whatever its type is. -/
theorem fieldOfItems_undecorated (name type : Json) (more : List Json) :
    fieldOfItems (name :: undecorated type :: more) =
      (fieldOfItems (name :: type :: more)).map FieldForm.undecorated := by
  cases more with
  | nil =>
    -- too short for a field, which is found before the type is looked at
    simp only [fieldOfItems]
    cases textAttribute (some name) <;> rfl
  | cons doc more =>
    have htype := anyAttribute_map_undecorated (some type)
    rw [Option.map_some] at htype
    rw [fieldOfItems_cons_cons_cons, fieldOfItems_cons_cons_cons, htype]
    cases textAttribute (some name) with
    | error e => rfl
    | ok name =>
      cases textAttribute (some doc) with
      | error e => rfl
      | ok doc => cases more <;> rfl

/-- A field has the same form without decorations, but for the decorations of its type. It is found
to be no field for the same reason. -/
theorem fieldForm_undecoratedField (item : Json) :
    fieldForm (undecoratedField item) = (fieldForm item).map FieldForm.undecorated := by
  match item with
  | .object members =>
    simp only [undecoratedField, undecoratedAt_eq, fieldForm, fieldAttributes, lookup_only,
      lookup_changedAt, List.mem_cons, String.reduceEq, List.not_mem_nil, or_false, or_true,
      if_true, if_false, anyAttribute_map_undecorated]
    cases textAttribute (members.lookup "doc") with
    | error e => rfl
    | ok doc => cases textAttribute (members.lookup "name") <;> rfl
  | .array (name :: type :: more) => exact fieldOfItems_undecorated name type more
  | .array [] => rfl
  | .array [name] =>
    simp only [undecoratedField, fieldForm, fieldOfItems]
    cases textAttribute (some name) <;> rfl
  | .null => rfl
  | .bool _ => rfl
  | .number _ => rfl
  | .string _ => rfl

theorem discard_fieldForm_undecoratedField (item : Json) :
    discard (fieldForm (undecoratedField item)) = discard (fieldForm item) := by
  rw [fieldForm_undecoratedField]
  cases fieldForm item <;> rfl

/-- The field of the given form in the record that messages call `element`. -/
def fieldOf (element : String) (form : FieldForm) : Except DecodeError Field :=
  match form.name, form.type with
  | none, _ => .error (.missing element "fields[].name")
  | some name, none => .error (.missing ("field '" ++ name ++ "'") "type")
  | some name, some type => (ofJson type).map fun schema => ⟨name, schema, form.doc⟩

theorem fieldsOfJson_cons (element : String) (item : Json) (items : List Json) :
    fieldsOfJson element (item :: items) = (do
      let form ← fieldForm item
      let field ← fieldOf element form
      let fields ← fieldsOfJson element items
      return field :: fields) := by
  rw [fieldsOfJson]
  split
  · next e hform =>
    rw [hform]
    rfl
  · next form hform =>
    simp only [hform]
    obtain ⟨name, type, doc⟩ := form
    cases name with
    | none => rfl
    | some name =>
      cases type with
      | none => rfl
      | some type =>
        change _ = fieldOf element ⟨some name, some type, doc⟩ >>= _
        dsimp only [fieldOf]
        cases ofJson type <;> rfl

theorem fieldOf_undecorated {element : String} {form : FieldForm}
    (h : ∀ type, form.type = some type → ofJson (undecorated type) = ofJson type) :
    fieldOf element form.undecorated = fieldOf element form := by
  obtain ⟨name, type, doc⟩ := form
  cases name with
  | none => rfl
  | some name =>
    cases type with
    | none => rfl
    | some type => simp [fieldOf, FieldForm.undecorated, h type rfl]

/-- Fields decode alike without decorations if their types do. -/
theorem fieldsOfJson_undecorated {element : String} {items : List Json}
    (h : ∀ item ∈ items, ∀ form type, fieldForm item = .ok form → form.type = some type →
      ofJson (undecorated type) = ofJson type) :
    fieldsOfJson element (items.map undecoratedField) = fieldsOfJson element items := by
  induction items with
  | nil => rfl
  | cons item items ih =>
    have hothers := ih fun other hother => h other (List.mem_cons_of_mem item hother)
    rw [List.map_cons, fieldsOfJson_cons, fieldsOfJson_cons, hothers, fieldForm_undecoratedField]
    cases hform : fieldForm item with
    | error e => rfl
    | ok form =>
      have hfield : fieldOf element form.undecorated = fieldOf element form :=
        fieldOf_undecorated fun type => h item List.mem_cons_self form type hform
      change (fieldOf element form.undecorated >>= _) = fieldOf element form >>= _
      rw [hfield]

/-! ### Decoding -/

theorem checkSequence_undecoratedFields (value : Option Json) :
    (checkSequence (value.map undecoratedFields) fun item => discard (fieldForm item)) =
      checkSequence value fun item => discard (fieldForm item) := by
  cases value with
  | none => rfl
  | some value =>
    cases value with
    | array items =>
      simp only [Option.map_some, undecoratedFields, undecoratedFieldItems_eq_map, checkSequence]
      induction items with
      | nil => rfl
      | cons item items ih =>
        rw [List.map_cons, List.forM, List.forM, discard_fieldForm_undecoratedField, ih]
    | _ => rfl

theorem recordHeader_undecorated (members : List (String × Json)) :
    recordHeader (only ObjectKind.record.attributes
      (changedAt "fields" undecoratedFields members)) = recordHeader members := by
  simp [recordHeader, ObjectKind.attributes, checkSequence_undecoratedFields]

theorem fieldItems_undecorated (members : List (String × Json)) :
    fieldItems (only ObjectKind.record.attributes
      (changedAt "fields" undecoratedFields members)) =
        (fieldItems members).map undecoratedField := by
  simp only [fieldItems, ObjectKind.attributes, lookup_only, lookup_changedAt, List.mem_cons,
    true_or, or_true, if_true]
  cases members.lookup "fields" with
  | none => rfl
  | some value =>
    cases value with
    | array items => exact undecoratedFieldItems_eq_map items
    | _ => rfl

theorem enumOf_only (members : List (String × Json)) :
    enumOf (only ObjectKind.enum.attributes members) = enumOf members := by
  simp [enumOf, ObjectKind.attributes]

theorem listOfJson_undecorated {items : List Json}
    (h : ∀ item ∈ items, ofJson (undecorated item) = ofJson item) :
    listOfJson (items.map undecorated) = listOfJson items := by
  induction items with
  | nil => rfl
  | cons item items ih =>
    rw [List.map_cons, listOfJson, listOfJson, h item List.mem_cons_self,
      ih fun other hother => h other (List.mem_cons_of_mem item hother)]

theorem ofPart_undecorated {wrap : Schema → Schema} {absent : DecodeError} {part : Option Json}
    (h : ∀ value, part = some value → ofJson (undecorated value) = ofJson value) :
    ofPart wrap absent (part.map undecorated) = ofPart wrap absent part := by
  cases part with
  | none => rfl
  | some value => rw [Option.map_some, ofPart, ofPart, h value rfl]

/-- An object decodes as it does without decorations if the schemas inside it do. -/
theorem ofJson_undecorated_object
    (h : ∀ part, sizeOf part < sizeOf members → ofJson (undecorated part) = ofJson part) :
    ofJson (undecorated (.object members)) = ofJson (.object members) := by
  have hpart (wrap : Schema → Schema) (absent : DecodeError) (key : String) :
      ofPart wrap absent ((members.lookup key).map undecorated) =
        ofPart wrap absent (members.lookup key) :=
    ofPart_undecorated fun part hlookup => h part (Json.sizeOf_lt_of_lookup hlookup)
  cases hkind : ObjectKind.of members with
  | record =>
    -- two passes: the header checks the shape of all fields, then their types are decoded
    have hfields (element : String) :
        fieldsOfJson element ((fieldItems members).map undecoratedField) =
          fieldsOfJson element (fieldItems members) := by
      refine fieldsOfJson_undecorated fun item hmem form type hform htype => h type ?_
      have := sizeOf_lt_of_fieldForm hform htype
      have := List.sizeOf_lt_of_mem hmem
      have := sizeOf_fieldItems_le members
      omega
    have hkept : ObjectKind.of (only ObjectKind.record.attributes
        (changedAt "fields" undecoratedFields members)) = .record :=
      objectKind_undecorated hkind (by decide) (by decide)
    simp only [undecorated_record hkind, ofJson, hkept, hkind, recordHeader_undecorated,
      fieldItems_undecorated, hfields]
  | enum =>
    have hkept : ObjectKind.of (only ObjectKind.enum.attributes members) = .enum :=
      (objectKind_only (by decide)).trans hkind
    simp only [undecorated_enum hkind, ofJson, hkept, hkind, enumOf_only]
  | array =>
    rw [undecorated_array hkind, ofJson_array hkind,
      ofJson_array (objectKind_undecorated hkind (by decide) (by decide))]
    simp [ObjectKind.attributes, hpart]
  | map =>
    rw [undecorated_map hkind, ofJson_map hkind,
      ofJson_map (objectKind_undecorated hkind (by decide) (by decide))]
    simp [ObjectKind.attributes, hpart]
  | primitive type =>
    simp [undecorated_primitive hkind, ofJson, hkind, ofName]
  | unsupported => rw [undecorated_unsupported hkind]

/-- A value decodes to the same schema without its decorations, or ends in the same error. -/
theorem ofJson_undecorated (value : Json) : ofJson (undecorated value) = ofJson value := by
  -- on the size of the value: its parts are looked up by name
  induction hsize : sizeOf value using Nat.strongRecOn generalizing value with
  | ind size ih =>
    subst hsize
    cases value with
    | array items =>
      rw [undecorated, undecoratedItems_eq_map]
      cases items with
      | nil => rfl
      | cons item items =>
        have hitems :
            listOfJson ((item :: items).map undecorated) = listOfJson (item :: items) := by
          refine listOfJson_undecorated fun part hmem => ih _ ?_ part rfl
          have := List.sizeOf_lt_of_mem hmem
          simp only [Json.array.sizeOf_spec]
          omega
        rw [List.map_cons, ofJson, ← List.map_cons, hitems, ofJson]
    | object members =>
      refine ofJson_undecorated_object fun part hpart => ih _ ?_ part rfl
      simp only [Json.object.sizeOf_spec]
      omega
    | _ => rfl

/-! ### Values without decorations -/

/-- The field objects of a record object. -/
def IsFieldObject (field members : List (String × Json)) : Prop :=
  ∃ items, ("fields", .array items) ∈ members ∧ .object field ∈ items

/-- The schemas that are the type of a field of a record object. -/
inductive IsFieldType (type : Json) (members : List (String × Json)) : Prop
  | object {field : List (String × Json)} (hfield : IsFieldObject field members)
      (htype : ("type", type) ∈ field)
  | array {items more : List Json} {name : Json} (hitems : ("fields", .array items) ∈ members)
      (hfield : .array (name :: type :: more) ∈ items)

/-- A value without decorations: objects of the four known types have only the attributes that
decoding looks at, no object stands for a primitive name, and this holds at every schema inside. -/
inductive Undecorated : Json → Prop
  | null : Undecorated .null
  | bool (value : Bool) : Undecorated (.bool value)
  | number (value : Json.Number) : Undecorated (.number value)
  | string (text : String) : Undecorated (.string text)
  | union {items : List Json} (hitems : ∀ item ∈ items, Undecorated item) :
      Undecorated (.array items)
  | record {members : List (String × Json)} (hkind : ObjectKind.of members = .record)
      (hnames : ∀ member ∈ members, member.1 ∈ ObjectKind.record.attributes)
      (hfields : ∀ field, IsFieldObject field members → ∀ member ∈ field,
        member.1 ∈ fieldAttributes)
      (htypes : ∀ type, IsFieldType type members → Undecorated type) :
      Undecorated (.object members)
  | enum {members : List (String × Json)} (hkind : ObjectKind.of members = .enum)
      (hnames : ∀ member ∈ members, member.1 ∈ ObjectKind.enum.attributes) :
      Undecorated (.object members)
  | array {members : List (String × Json)} (hkind : ObjectKind.of members = .array)
      (hnames : ∀ member ∈ members, member.1 ∈ ObjectKind.array.attributes)
      (hitems : ∀ value, ("items", value) ∈ members → Undecorated value) :
      Undecorated (.object members)
  | map {members : List (String × Json)} (hkind : ObjectKind.of members = .map)
      (hnames : ∀ member ∈ members, member.1 ∈ ObjectKind.map.attributes)
      (hvalues : ∀ value, ("values", value) ∈ members → Undecorated value) :
      Undecorated (.object members)
  | unsupported {members : List (String × Json)} (hkind : ObjectKind.of members = .unsupported) :
      Undecorated (.object members)

theorem sizeOf_lt_of_mem_members {key : String} {value : Json} (h : (key, value) ∈ members) :
    sizeOf value < sizeOf members := by
  have := List.sizeOf_lt_of_mem h
  simp only [Prod.mk.sizeOf_spec] at this
  omega

theorem IsFieldType.sizeOf_lt {type : Json} (h : IsFieldType type members) :
    sizeOf type < sizeOf members := by
  cases h with
  | object hfield htype =>
    obtain ⟨items, hitems, hmem⟩ := hfield
    have htype := sizeOf_lt_of_mem_members htype
    have hmem := List.sizeOf_lt_of_mem hmem
    have hitems := sizeOf_lt_of_mem_members hitems
    simp only [Json.object.sizeOf_spec, Json.array.sizeOf_spec] at hmem hitems
    omega
  | array hitems hmem =>
    have hmem := List.sizeOf_lt_of_mem hmem
    have hitems := sizeOf_lt_of_mem_members hitems
    simp only [Json.array.sizeOf_spec, List.cons.sizeOf_spec] at hmem hitems
    omega

/-- The fields of a record without decorations come from the fields of the record. -/
theorem exists_of_mem_undecoratedFields {items : List Json} {item : Json}
    (hitems : ("fields", .array items) ∈ only ObjectKind.record.attributes
      (changedAt "fields" undecoratedFields members))
    (hitem : item ∈ items) :
    ∃ written source, ("fields", .array written) ∈ members ∧ source ∈ written ∧
      undecoratedField source = item := by
  obtain ⟨fields, hfields, heq⟩ := exists_of_mem_changedAt (mem_only_iff.mp hitems).1
  cases fields with
  | array written =>
    rw [undecoratedFields, undecoratedFieldItems_eq_map] at heq
    cases heq
    obtain ⟨source, hsource, rfl⟩ := List.mem_map.mp hitem
    exact ⟨written, source, hfields, hsource, rfl⟩
  | _ => cases heq

theorem undecoratedField_eq_object {source : Json} {field : List (String × Json)}
    (h : undecoratedField source = .object field) :
    ∃ written, source = .object written ∧
      field = only fieldAttributes (changedAt "type" undecorated written) := by
  match source with
  | .object written =>
    rw [undecoratedField, undecoratedAt_eq] at h
    cases h
    exact ⟨written, rfl, rfl⟩
  | .array [] => cases h
  | .array [_] => cases h
  | .array (_ :: _ :: _) => cases h

theorem undecoratedField_eq_array {source name type : Json} {more : List Json}
    (h : undecoratedField source = .array (name :: type :: more)) :
    ∃ written, source = .array (name :: written :: more) ∧ type = undecorated written := by
  match source with
  | .array (_ :: written :: _) =>
    cases h
    exact ⟨written, rfl, rfl⟩

/-- A field of a record without decorations has only the attributes of a field. -/
theorem mem_fieldAttributes_of_undecorated {field : List (String × Json)} {member : String × Json}
    (hfield : IsFieldObject field
      (only ObjectKind.record.attributes (changedAt "fields" undecoratedFields members)))
    (hmember : member ∈ field) : member.1 ∈ fieldAttributes := by
  obtain ⟨items, hitems, hmem⟩ := hfield
  obtain ⟨-, source, -, -, hsource⟩ := exists_of_mem_undecoratedFields hitems hmem
  obtain ⟨written, -, rfl⟩ := undecoratedField_eq_object hsource
  exact (mem_only_iff.mp hmember).2

/-- The types of the fields of a record without decorations come from the types of its fields. -/
theorem exists_of_isFieldType_undecorated {type : Json}
    (h : IsFieldType type
      (only ObjectKind.record.attributes (changedAt "fields" undecoratedFields members))) :
    ∃ written, IsFieldType written members ∧ undecorated written = type := by
  cases h with
  | object hfield htype =>
    obtain ⟨items, hitems, hmem⟩ := hfield
    obtain ⟨fields, source, hfields, hfield, hsource⟩ := exists_of_mem_undecoratedFields hitems hmem
    obtain ⟨field, rfl, rfl⟩ := undecoratedField_eq_object hsource
    obtain ⟨written, hwritten, rfl⟩ := exists_of_mem_changedAt (mem_only_iff.mp htype).1
    exact ⟨written, .object ⟨fields, hfields, hfield⟩ hwritten, rfl⟩
  | array hitems hmem =>
    obtain ⟨fields, source, hfields, hfield, hsource⟩ := exists_of_mem_undecoratedFields hitems hmem
    obtain ⟨written, rfl, rfl⟩ := undecoratedField_eq_array hsource
    exact ⟨written, .array hfields hfield, rfl⟩

theorem undecorated_undecorated_object
    (h : ∀ part, sizeOf part < sizeOf members → Undecorated (undecorated part)) :
    Undecorated (undecorated (.object members)) := by
  have hnames {names : List String} {members : List (String × Json)} :
      ∀ member ∈ only names members, member.1 ∈ names :=
    fun member hmember => (mem_only_iff.mp hmember).2
  have hparts {names : List String} {key : String} (value : Json)
      (hvalue : (key, value) ∈ only names (changedAt key undecorated members)) :
      Undecorated value := by
    obtain ⟨part, hpart, rfl⟩ := exists_of_mem_changedAt (mem_only_iff.mp hvalue).1
    exact h part (sizeOf_lt_of_mem_members hpart)
  cases hkind : ObjectKind.of members with
  | record =>
    rw [undecorated_record hkind]
    refine .record (objectKind_undecorated hkind (by decide) (by decide)) hnames ?_ ?_
    · exact fun field hfield member => mem_fieldAttributes_of_undecorated hfield
    · intro type htype
      obtain ⟨written, hwritten, rfl⟩ := exists_of_isFieldType_undecorated htype
      exact h written hwritten.sizeOf_lt
  | enum =>
    rw [undecorated_enum hkind]
    exact .enum ((objectKind_only (by decide)).trans hkind) hnames
  | array =>
    rw [undecorated_array hkind]
    exact .array (objectKind_undecorated hkind (by decide) (by decide)) hnames hparts
  | map =>
    rw [undecorated_map hkind]
    exact .map (objectKind_undecorated hkind (by decide) (by decide)) hnames hparts
  | primitive type =>
    rw [undecorated_primitive hkind]
    exact .string type.name
  | unsupported =>
    rw [undecorated_unsupported hkind]
    exact .unsupported hkind

/-- No decoration is left over. -/
theorem undecorated_undecorated (value : Json) : Undecorated (undecorated value) := by
  induction hsize : sizeOf value using Nat.strongRecOn generalizing value with
  | ind size ih =>
    subst hsize
    cases value with
    | null => exact .null
    | bool value => exact .bool value
    | number value => exact .number value
    | string text => exact .string text
    | array items =>
      rw [undecorated, undecoratedItems_eq_map]
      refine .union (List.forall_mem_map.mpr fun item hmem => ih _ ?_ item rfl)
      have := List.sizeOf_lt_of_mem hmem
      simp only [Json.array.sizeOf_spec]
      omega
    | object members =>
      refine undecorated_undecorated_object fun part hpart => ih _ ?_ part rfl
      simp only [Json.object.sizeOf_spec]
      omega

/-- A field stays as it is if there is nothing to take off it. -/
theorem undecoratedField_eq_self {item : Json}
    (hnames : ∀ field, item = .object field → ∀ member ∈ field, member.1 ∈ fieldAttributes)
    (hobject : ∀ field type, item = .object field → ("type", type) ∈ field →
      undecorated type = type)
    (harray : ∀ name type more, item = .array (name :: type :: more) → undecorated type = type) :
    undecoratedField item = item := by
  match item with
  | .object field =>
    rw [undecoratedField, undecoratedAt_eq, changedAt_eq_self fun type => hobject field type rfl,
      only_eq_self (hnames field rfl)]
  | .array (name :: type :: more) => rw [undecoratedField, harray name type more rfl]
  | .array [] => rfl
  | .array [_] => rfl
  | .null => rfl
  | .bool _ => rfl
  | .number _ => rfl
  | .string _ => rfl

/-- The fields of a record stay as they are if there is nothing to take off them. -/
theorem undecoratedFields_eq_self {value : Json} (hvalue : ("fields", value) ∈ members)
    (hfields : ∀ field, IsFieldObject field members → ∀ member ∈ field, member.1 ∈ fieldAttributes)
    (htypes : ∀ type, IsFieldType type members → undecorated type = type) :
    undecoratedFields value = value := by
  cases value with
  | array items =>
    rw [undecoratedFields, undecoratedFieldItems_eq_map]
    refine congrArg Json.array ((List.map_congr_left fun item hitem => ?_).trans
      (List.map_id items))
    refine undecoratedField_eq_self ?_ ?_ ?_
    · rintro field rfl
      exact hfields field ⟨items, hvalue, hitem⟩
    · rintro field type rfl htype
      exact htypes type (.object ⟨items, hvalue, hitem⟩ htype)
    · rintro name type more rfl
      exact htypes type (.array hvalue hitem)
  | _ => rfl

/-- A value without decorations stays as it is. -/
theorem Undecorated.undecorated_eq {value : Json} (h : Undecorated value) :
    undecorated value = value := by
  induction h with
  | null => rfl
  | bool value => rfl
  | number value => rfl
  | string text => rfl
  | @union items _ ih =>
    rw [undecorated, undecoratedItems_eq_map]
    exact congrArg Json.array ((List.map_congr_left ih).trans (List.map_id items))
  | record hkind hnames hfields _ ih =>
    rw [undecorated_record hkind,
      changedAt_eq_self fun value hvalue => undecoratedFields_eq_self hvalue hfields ih,
      only_eq_self hnames]
  | enum hkind hnames => rw [undecorated_enum hkind, only_eq_self hnames]
  | array hkind hnames _ ih =>
    rw [undecorated_array hkind, changedAt_eq_self ih, only_eq_self hnames]
  | map hkind hnames _ ih =>
    rw [undecorated_map hkind, changedAt_eq_self ih, only_eq_self hnames]
  | unsupported hkind => exact undecorated_unsupported hkind

/-- Decorations mean nothing to the decoder: a value decodes as it does without them, to the same
schema or with the same error. None of them is left over, and a value that has none stays as it
is. -/
theorem decorations_are_not_decoded (value : Json) :
    ofJson (undecorated value) = ofJson value ∧ Undecorated (undecorated value) ∧
      (undecorated value = value ↔ Undecorated value) := by
  refine ⟨ofJson_undecorated value, undecorated_undecorated value, ?_, Undecorated.undecorated_eq⟩
  intro h
  exact h ▸ undecorated_undecorated value

example :
    undecorated (.object [("type", .string "record"), ("aliases", .array []), ("name", .string "A"),
      ("fields", .array [.object [("name", .string "at"), ("default", .null),
        ("type", .array [.string "null", .object [("type", .string "long"),
          ("logicalType", .string "timestamp-millis")]])]])]) =
    .object [("type", .string "record"), ("name", .string "A"),
      ("fields", .array [.object [("name", .string "at"),
        ("type", .array [.string "null", .string "long"])]])] := by
  rfl

end Schema

end AvroTypings
