import AvroTypings.Schema.Decode

/-!
# The grammar of schemas

Which JSON values are schemas is spread over the decoder: attributes are looked at one by one, all
fields of a record before the type of any, and `null` counts as absent for some attributes and not
for others. This file states the grammar once, as a predicate on values, and proves that exactly the
values of the grammar decode.

## Main definitions

* `OptionalText`, `HeaderAttributes`: attributes that are absent, null or a string.
* `FieldWithType`: the values that are a field of a given type.
* `IsSchema`: the values that are schemas.

## Main results

* `Schema.decodes_iff_isSchema`: a value decodes if and only if it is in the grammar.
-/

namespace AvroTypings

/-! ### The grammar -/

/-- An attribute that is absent, null or a string. -/
def OptionalText (value : Option Json) : Prop :=
  value = none ∨ value = some .null ∨ ∃ text, value = some (.string text)

/-- The attributes that a record and an enum may have in common. -/
structure HeaderAttributes (members : List (String × Json)) : Prop where
  name : OptionalText (members.lookup "name")
  scope : OptionalText (members.lookup "namespace")
  doc : OptionalText (members.lookup "doc")

/-- The items of a sequence that may be absent or null. -/
inductive OptionalItems : Option Json → List Json → Prop
  | absent : OptionalItems none []
  | null : OptionalItems (some .null) []
  | array (items : List Json) : OptionalItems (some (.array items)) items

/-- A value is a field of the given type: an object, or an array of the name, the type and the
documentation. Only the documentation may be missing. -/
inductive FieldWithType : Json → Json → Prop
  | object {members : List (String × Json)} {name : String} {type : Json}
      (hname : members.lookup "name" = some (.string name))
      (htype : members.lookup "type" = some type) (hnull : type ≠ .null)
      (hdoc : OptionalText (members.lookup "doc")) :
      FieldWithType (.object members) type
  | array {name : String} {type doc : Json} (hnull : type ≠ .null)
      (hdoc : OptionalText (some doc)) :
      FieldWithType (.array [.string name, type, doc]) type

/-- The values that are schemas. An object is what its attribute `type` says; one that is neither a
record, an enum, an array nor a map is a schema whatever else it holds. -/
inductive IsSchema : Json → Prop
  | null : IsSchema .null
  | bool (value : Bool) : IsSchema (.bool value)
  | number (value : Json.Number) : IsSchema (.number value)
  | string (value : String) : IsSchema (.string value)
  | union {items : List Json} (hitems : ∀ item ∈ items, IsSchema item) : IsSchema (.array items)
  | other {members : List (String × Json)}
      (htype : ∀ kind ∈ ["record", "enum", "array", "map"],
        members.lookup "type" ≠ some (.string kind)) :
      IsSchema (.object members)
  | array {members : List (String × Json)} {items : Json}
      (htype : members.lookup "type" = some (.string "array"))
      (hitems : members.lookup "items" = some items) (hschema : IsSchema items) :
      IsSchema (.object members)
  | map {members : List (String × Json)} {values : Json}
      (htype : members.lookup "type" = some (.string "map"))
      (hvalues : members.lookup "values" = some values) (hschema : IsSchema values) :
      IsSchema (.object members)
  | enum {members : List (String × Json)} {symbols : List Json}
      (htype : members.lookup "type" = some (.string "enum")) (hheader : HeaderAttributes members)
      (hsymbols : members.lookup "symbols" = some (.array symbols))
      (htexts : ∀ symbol ∈ symbols, ∃ text, symbol = .string text) :
      IsSchema (.object members)
  | record {members : List (String × Json)} {fields : List Json}
      (htype : members.lookup "type" = some (.string "record"))
      (hheader : HeaderAttributes members)
      (hfields : OptionalItems (members.lookup "fields") fields)
      (hforms : ∀ field ∈ fields, ∃ type, FieldWithType field type)
      (hschemas : ∀ field ∈ fields, ∀ type, FieldWithType field type → IsSchema type) :
      IsSchema (.object members)

/-! ### Stages that succeed -/

/-- A stage ends in a value. -/
def Succeeds {ε α : Type} (stage : Except ε α) : Prop := ∃ a, stage = .ok a

section Succeeds

variable {ε α β γ : Type}

theorem bind_eq_ok {stage : Except ε α} {next : α → Except ε β} {b : β} :
    stage >>= next = .ok b ↔ ∃ a, stage = .ok a ∧ next a = .ok b := by
  cases stage <;> simp [bind, Except.bind]

theorem pure_eq_ok {a b : α} : (pure a : Except ε α) = .ok b ↔ a = b := by
  simp [pure, Except.pure]

theorem throw_ne_ok {e : ε} {a : α} : (throw e : Except ε α) ≠ .ok a := by
  intro h
  cases h

@[simp] theorem succeeds_ok (a : α) : Succeeds (.ok a : Except ε α) := ⟨a, rfl⟩

@[simp] theorem succeeds_pure (a : α) : Succeeds (pure a : Except ε α) := ⟨a, rfl⟩

@[simp] theorem not_succeeds_error (e : ε) : ¬ Succeeds (.error e : Except ε α) := by
  rintro ⟨a, h⟩
  cases h

@[simp] theorem not_succeeds_throw (e : ε) : ¬ Succeeds (throw e : Except ε α) :=
  not_succeeds_error e

@[simp] theorem succeeds_map {stage : Except ε α} {f : α → β} :
    Succeeds (stage.map f) ↔ Succeeds stage := by
  cases stage <;> simp [Except.map]

@[simp] theorem succeeds_discard {stage : Except ε α} :
    Succeeds (discard stage) ↔ Succeeds stage := by
  cases stage with
  | error e => exact iff_of_false (not_succeeds_error e) (not_succeeds_error e)
  | ok a => exact iff_of_true (succeeds_ok _) (succeeds_ok a)

theorem succeeds_bind {stage : Except ε α} {next : α → Except ε β} :
    Succeeds (stage >>= next) ↔ ∃ a, stage = .ok a ∧ Succeeds (next a) := by
  cases stage <;> simp [bind, Except.bind]

/-- Two stages whose values are put together. -/
theorem succeeds_both {first : Except ε α} {second : Except ε β} {f : α → β → γ} :
    Succeeds (first >>= fun a => second >>= fun b => pure (f a b)) ↔
      Succeeds first ∧ Succeeds second := by
  rw [succeeds_bind]
  constructor
  · rintro ⟨a, ha, h⟩
    obtain ⟨b, hb, -⟩ := succeeds_bind.mp h
    exact ⟨⟨a, ha⟩, ⟨b, hb⟩⟩
  · rintro ⟨⟨a, ha⟩, ⟨b, hb⟩⟩
    exact ⟨a, ha, succeeds_bind.mpr ⟨b, hb, succeeds_pure _⟩⟩

theorem succeeds_mapM {f : α → Except ε β} {l : List α} :
    Succeeds (l.mapM f) ↔ ∀ a ∈ l, Succeeds (f a) := by
  induction l with
  | nil => simp
  | cons a l ih =>
    rw [List.mapM_cons, succeeds_both, List.forall_mem_cons, ih]

theorem succeeds_forM {f : α → Except ε Unit} {l : List α} :
    Succeeds (l.forM f) ↔ ∀ a ∈ l, Succeeds (f a) := by
  induction l with
  | nil => simp
  | cons a l ih =>
    change Succeeds (f a >>= fun _ => l.forM f) ↔ _
    rw [succeeds_bind, List.forall_mem_cons, ih]
    simp [Succeeds]

end Succeeds

namespace Schema

/-! ### Attributes and fields -/

theorem succeeds_textAttribute {value : Option Json} :
    Succeeds (textAttribute value) ↔ OptionalText value := by
  unfold textAttribute OptionalText
  split
  · simp
  · simp
  · simp
  · simp_all

theorem textAttribute_eq_some {value : Option Json} {text : String} :
    textAttribute value = .ok (some text) ↔ value = some (.string text) := by
  unfold textAttribute
  split
  · simp
  · simp
  · simp
  · simp_all

theorem anyAttribute_eq_some {value : Option Json} {type : Json} :
    anyAttribute value = some type ↔ value = some type ∧ type ≠ .null := by
  unfold anyAttribute
  split
  · constructor
    · intro h
      contradiction
    · rintro ⟨h, hnull⟩
      exact absurd (Option.some.inj h).symm hnull
  · constructor
    · rintro rfl
      simp_all
    · exact And.left

theorem fieldOfItems_eq_ok {items : List Json} {name : String} {type : Json}
    {doc : Option String} :
    fieldOfItems items = .ok ⟨some name, some type, doc⟩ ↔
      ∃ last, items = [.string name, type, last] ∧ type ≠ .null ∧
        textAttribute (some last) = .ok doc := by
  match items with
  | [] => simp [fieldOfItems]
  | [first] => simp [fieldOfItems, bind_eq_ok, throw_ne_ok]
  | [first, second] => simp [fieldOfItems, bind_eq_ok, throw_ne_ok]
  | first :: second :: third :: more =>
    cases more with
    | nil =>
      simp only [fieldOfItems, bind_eq_ok, pure_eq_ok, List.isEmpty_nil, if_true]
      constructor
      · rintro ⟨name', hname, doc', hdoc, h⟩
        obtain ⟨rfl, htype, rfl⟩ := FieldForm.mk.inj h
        obtain ⟨hsecond, hnull⟩ := anyAttribute_eq_some.mp htype
        cases hsecond
        cases textAttribute_eq_some.mp hname
        exact ⟨third, rfl, hnull, hdoc⟩
      · rintro ⟨last, hitems, hnull, hdoc⟩
        cases hitems
        exact ⟨some name, rfl, doc, hdoc, by rw [anyAttribute_eq_some.mpr ⟨rfl, hnull⟩]⟩
    | cons fourth more => simp [fieldOfItems, bind_eq_ok, throw_ne_ok]

/-- The form of a field has a name and a type exactly if the value is a field of that type. -/
theorem fieldWithType_iff {item type : Json} :
    FieldWithType item type ↔
      ∃ name doc, fieldForm item = .ok ⟨some name, some type, doc⟩ := by
  constructor
  · intro h
    cases h with
    | @object members name type hname htype hnull hdoc =>
      obtain ⟨doc, hdoc⟩ := succeeds_textAttribute.mpr hdoc
      refine ⟨name, doc, bind_eq_ok.mpr ⟨doc, hdoc, bind_eq_ok.mpr
        ⟨some name, textAttribute_eq_some.mpr hname, ?_⟩⟩⟩
      rw [anyAttribute_eq_some.mpr ⟨htype, hnull⟩]
      rfl
    | @array name type last hnull hdoc =>
      obtain ⟨doc, hdoc⟩ := succeeds_textAttribute.mpr hdoc
      exact ⟨name, doc, fieldOfItems_eq_ok.mpr ⟨last, rfl, hnull, hdoc⟩⟩
  · rintro ⟨name, doc, h⟩
    unfold fieldForm at h
    split at h
    · obtain ⟨doc', hdoc, h⟩ := bind_eq_ok.mp h
      obtain ⟨name', hname, h⟩ := bind_eq_ok.mp h
      obtain ⟨rfl, htype, rfl⟩ := FieldForm.mk.inj (pure_eq_ok.mp h)
      obtain ⟨htype, hnull⟩ := anyAttribute_eq_some.mp htype
      exact .object (textAttribute_eq_some.mp hname) htype hnull
        (succeeds_textAttribute.mp ⟨_, hdoc⟩)
    · obtain ⟨last, rfl, hnull, hdoc⟩ := fieldOfItems_eq_ok.mp h
      exact .array hnull (succeeds_textAttribute.mp ⟨doc, hdoc⟩)
    · cases h

theorem fieldWithType_unique {item type other : Json}
    (h : FieldWithType item type) (h' : FieldWithType item other) : type = other := by
  obtain ⟨name, doc, hform⟩ := fieldWithType_iff.mp h
  obtain ⟨name', doc', hform'⟩ := fieldWithType_iff.mp h'
  cases hform.symm.trans hform'
  rfl

/-! ### Records and enums -/

theorem succeeds_checkSequence {value : Option Json} {element : Json → Except DecodeError Unit} :
    Succeeds (checkSequence value element) ↔
      ∃ items, OptionalItems value items ∧ ∀ item ∈ items, Succeeds (element item) := by
  unfold checkSequence
  split
  · exact ⟨fun _ => ⟨[], .absent, by simp⟩, fun _ => succeeds_ok ()⟩
  · exact ⟨fun _ => ⟨[], .null, by simp⟩, fun _ => succeeds_ok ()⟩
  · next items =>
    rw [succeeds_forM]
    constructor
    · intro h
      exact ⟨items, .array items, h⟩
    · rintro ⟨_, hitems, h⟩
      cases hitems
      exact h
  · next found hnull harray =>
    simp only [not_succeeds_error, false_iff]
    rintro ⟨items, hitems, -⟩
    cases hitems with
    | null => exact hnull rfl
    | array items => exact harray items rfl

theorem fieldItems_eq {members : List (String × Json)} {items : List Json}
    (h : OptionalItems (members.lookup "fields") items) : fieldItems members = items := by
  unfold fieldItems
  generalize members.lookup "fields" = value at h
  cases h <;> rfl

theorem headerAttributes_iff {members : List (String × Json)} :
    HeaderAttributes members ↔ Succeeds (textAttribute (members.lookup "name")) ∧
      Succeeds (textAttribute (members.lookup "namespace")) ∧
      Succeeds (textAttribute (members.lookup "doc")) := by
  simp only [succeeds_textAttribute]
  exact ⟨fun h => ⟨h.1, h.2, h.3⟩, fun h => ⟨h.1, h.2.1, h.2.2⟩⟩

theorem succeeds_recordHeader {members : List (String × Json)} :
    Succeeds (recordHeader members) ↔
      HeaderAttributes members ∧ Succeeds (checkSequence (members.lookup "fields") fun item =>
        discard (fieldForm item)) := by
  rw [headerAttributes_iff]
  constructor
  · intro h
    obtain ⟨doc, hdoc, h⟩ := succeeds_bind.mp h
    obtain ⟨_, hfields, h⟩ := succeeds_bind.mp h
    obtain ⟨name, hname, h⟩ := succeeds_bind.mp h
    obtain ⟨scope, hscope, -⟩ := succeeds_bind.mp h
    exact ⟨⟨⟨name, hname⟩, ⟨scope, hscope⟩, ⟨doc, hdoc⟩⟩, ⟨_, hfields⟩⟩
  · rintro ⟨⟨⟨name, hname⟩, ⟨scope, hscope⟩, ⟨doc, hdoc⟩⟩, ⟨_, hfields⟩⟩
    exact succeeds_bind.mpr ⟨doc, hdoc, succeeds_bind.mpr ⟨_, hfields, succeeds_bind.mpr
      ⟨name, hname, succeeds_bind.mpr ⟨scope, hscope, succeeds_pure _⟩⟩⟩⟩

theorem succeeds_symbolOf {symbol : Json} :
    Succeeds (symbolOf symbol) ↔ ∃ text, symbol = .string text := by
  unfold symbolOf
  split
  · simp
  · simp_all

theorem succeeds_enumOf {members : List (String × Json)} :
    Succeeds (enumOf members) ↔
      HeaderAttributes members ∧ ∃ symbols, members.lookup "symbols" = some (.array symbols) ∧
        ∀ symbol ∈ symbols, ∃ text, symbol = .string text := by
  simp only [headerAttributes_iff, ← succeeds_symbolOf, ← succeeds_mapM]
  constructor
  · intro h
    obtain ⟨doc, hdoc, h⟩ := succeeds_bind.mp h
    obtain ⟨name, hname, h⟩ := succeeds_bind.mp h
    obtain ⟨scope, hscope, h⟩ := succeeds_bind.mp h
    obtain ⟨symbols, hsymbols, h⟩ := succeeds_bind.mp h
    refine ⟨⟨⟨name, hname⟩, ⟨scope, hscope⟩, ⟨doc, hdoc⟩⟩, ?_⟩
    unfold symbolsAttribute at hsymbols
    split at hsymbols
    · cases hsymbols
      exact absurd h (not_succeeds_throw _)
    · cases hsymbols
      exact absurd h (not_succeeds_throw _)
    · next items heq => exact ⟨items, heq, succeeds_map.mp ⟨symbols, hsymbols⟩⟩
    · cases hsymbols
  · rintro ⟨⟨⟨name, hname⟩, ⟨scope, hscope⟩, ⟨doc, hdoc⟩⟩, items, hitems, ⟨symbols, hsymbols⟩⟩
    have hattribute : symbolsAttribute (members.lookup "symbols") = .ok (some symbols) := by
      rw [hitems, symbolsAttribute, hsymbols]
      rfl
    exact succeeds_bind.mpr ⟨doc, hdoc, succeeds_bind.mpr ⟨name, hname, succeeds_bind.mpr
      ⟨scope, hscope, succeeds_bind.mpr ⟨some symbols, hattribute, succeeds_pure _⟩⟩⟩⟩

/-! ### Lists of schemas and of fields -/

theorem succeeds_listOfJson {values : List Json} :
    Succeeds (listOfJson values) ↔ ∀ value ∈ values, Succeeds (ofJson value) := by
  induction values with
  | nil => simp [listOfJson]
  | cons value values ih =>
    rw [listOfJson, succeeds_both, List.forall_mem_cons, ih]

/-- A value is a field whose type decodes. -/
def IsDecodableField (item : Json) : Prop :=
  ∃ type, FieldWithType item type ∧ Succeeds (ofJson type)

theorem succeeds_fieldsOfJson {element : String} {items : List Json} :
    Succeeds (fieldsOfJson element items) ↔ ∀ item ∈ items, IsDecodableField item := by
  induction items with
  | nil => simp [fieldsOfJson]
  | cons item items ih =>
    rw [fieldsOfJson, List.forall_mem_cons, ← ih]
    simp only [IsDecodableField, fieldWithType_iff]
    split
    · next e hform => simp [hform]
    · next form hform =>
      obtain ⟨name, type, doc⟩ := form
      cases name with
      | none => simp [hform]
      | some name =>
        cases type with
        | none => simp [hform]
        | some type =>
          rw [succeeds_both]
          constructor
          · rintro ⟨hschema, hfields⟩
            exact ⟨⟨type, ⟨name, doc, hform⟩, hschema⟩, hfields⟩
          · rintro ⟨⟨type', ⟨name', doc', hform'⟩, hschema⟩, hfields⟩
            cases hform.symm.trans hform'
            exact ⟨hschema, hfields⟩

/-! ### Objects by type -/

variable {members : List (String × Json)}

theorem ObjectKind.of_eq {name : String} (h : members.lookup "type" = some (.string name)) :
    ObjectKind.of members = ObjectKind.ofName name := by
  rw [ObjectKind.of, h]

theorem succeeds_record (htype : members.lookup "type" = some (.string "record")) :
    Succeeds (ofJson (.object members)) ↔
      HeaderAttributes members ∧ ∃ items, OptionalItems (members.lookup "fields") items ∧
        ∀ item ∈ items, IsDecodableField item := by
  have hkind : ObjectKind.of members = .record := ObjectKind.of_eq htype
  rw [ofJson, hkind]
  constructor
  · intro h
    obtain ⟨header, hheader, h⟩ := succeeds_bind.mp h
    obtain ⟨fields, hfields, -⟩ := succeeds_bind.mp h
    obtain ⟨hattributes, hsequence⟩ := succeeds_recordHeader.mp ⟨header, hheader⟩
    obtain ⟨items, hitems, -⟩ := succeeds_checkSequence.mp hsequence
    rw [fieldItems_eq hitems] at hfields
    exact ⟨hattributes, items, hitems, succeeds_fieldsOfJson.mp ⟨fields, hfields⟩⟩
  · rintro ⟨hattributes, items, hitems, hdecode⟩
    have hforms : ∀ item ∈ items, Succeeds (discard (fieldForm item)) := by
      intro item hmem
      obtain ⟨type, hfield, -⟩ := hdecode item hmem
      obtain ⟨name, doc, hform⟩ := fieldWithType_iff.mp hfield
      exact succeeds_discard.mpr ⟨_, hform⟩
    obtain ⟨header, hheader⟩ := succeeds_recordHeader.mpr
      ⟨hattributes, succeeds_checkSequence.mpr ⟨items, hitems, hforms⟩⟩
    refine succeeds_bind.mpr ⟨header, hheader, ?_⟩
    rw [fieldItems_eq hitems]
    obtain ⟨fields, hfields⟩ := succeeds_fieldsOfJson.mpr hdecode
    exact succeeds_bind.mpr ⟨fields, hfields, succeeds_pure _⟩

theorem succeeds_enum (htype : members.lookup "type" = some (.string "enum")) :
    Succeeds (ofJson (.object members)) ↔
      HeaderAttributes members ∧ ∃ symbols, members.lookup "symbols" = some (.array symbols) ∧
        ∀ symbol ∈ symbols, ∃ text, symbol = .string text := by
  have hkind : ObjectKind.of members = .enum := ObjectKind.of_eq htype
  rw [ofJson, hkind]
  exact succeeds_enumOf

theorem succeeds_array (htype : members.lookup "type" = some (.string "array")) :
    Succeeds (ofJson (.object members)) ↔
      ∃ items, members.lookup "items" = some items ∧ Succeeds (ofJson items) := by
  have hkind : ObjectKind.of members = .array := ObjectKind.of_eq htype
  rw [ofJson, hkind]
  dsimp only
  split
  · next h => simp [h]
  · next h => simp [h]

theorem succeeds_map_object (htype : members.lookup "type" = some (.string "map")) :
    Succeeds (ofJson (.object members)) ↔
      ∃ values, members.lookup "values" = some values ∧ Succeeds (ofJson values) := by
  have hkind : ObjectKind.of members = .map := ObjectKind.of_eq htype
  rw [ofJson, hkind]
  dsimp only
  split
  · next h => simp [h]
  · next h => simp [h]

theorem succeeds_other (htype : ∀ kind ∈ ["record", "enum", "array", "map"],
      members.lookup "type" ≠ some (.string kind)) :
    Succeeds (ofJson (.object members)) := by
  have hkind : (∃ type, ObjectKind.of members = .primitive type) ∨
      ObjectKind.of members = .unsupported := by
    unfold ObjectKind.of
    split
    · next name hname =>
      have hne (kind : String) (hmem : kind ∈ ["record", "enum", "array", "map"]) :
          name ≠ kind := by
        rintro rfl
        exact htype name hmem hname
      simp only [ObjectKind.ofName, hne "record" (by simp), hne "enum" (by simp),
        hne "array" (by simp), hne "map" (by simp), if_false]
      split
      · next type _ => exact .inl ⟨type, rfl⟩
      · exact .inr rfl
    · exact .inr rfl
  rw [ofJson]
  obtain ⟨type, hkind⟩ | hkind := hkind
  · simp [hkind]
  · simp [hkind]

theorem succeeds_union {items : List Json} :
    Succeeds (ofJson (.array items)) ↔ ∀ item ∈ items, Succeeds (ofJson item) := by
  cases items with
  | nil => simp [ofJson]
  | cons item items => rw [ofJson, succeeds_map, succeeds_listOfJson]

/-! ### Decoding and the grammar -/

theorem sizeOf_lt_of_fieldWithType {item type : Json} (h : FieldWithType item type) :
    sizeOf type < sizeOf item := by
  obtain ⟨name, doc, hform⟩ := fieldWithType_iff.mp h
  exact sizeOf_lt_of_fieldForm hform rfl

theorem sizeOf_lt_of_optionalItems {items : List Json} {item : Json}
    (h : OptionalItems (members.lookup "fields") items) (hmem : item ∈ items) :
    sizeOf item < sizeOf members := by
  have hitems := sizeOf_fieldItems_le members
  rw [fieldItems_eq h] at hitems
  exact Nat.lt_of_lt_of_le (List.sizeOf_lt_of_mem hmem) hitems

/-- A value of the grammar decodes, by induction on why it is in the grammar. -/
theorem succeeds_of_isSchema {value : Json} (h : IsSchema value) : Succeeds (ofJson value) := by
  induction h with
  | null => simp [ofJson]
  | bool value => simp [ofJson]
  | number value => simp [ofJson]
  | string value => simp [ofJson]
  | union _ ih => exact succeeds_union.mpr ih
  | other htype => exact succeeds_other htype
  | array htype hitems _ ih => exact (succeeds_array htype).mpr ⟨_, hitems, ih⟩
  | map htype hvalues _ ih => exact (succeeds_map_object htype).mpr ⟨_, hvalues, ih⟩
  | enum htype hheader hsymbols htexts =>
    exact (succeeds_enum htype).mpr ⟨hheader, _, hsymbols, htexts⟩
  | record htype hheader hfields hforms _ ih =>
    refine (succeeds_record htype).mpr ⟨hheader, _, hfields, fun field hmem => ?_⟩
    obtain ⟨type, hfield⟩ := hforms field hmem
    exact ⟨type, hfield, ih field hmem type hfield⟩

/-- An object that decodes is in the grammar, provided that this holds of all smaller values. -/
theorem isSchema_object_of_succeeds
    (ih : ∀ value, sizeOf value < sizeOf members → Succeeds (ofJson value) → IsSchema value)
    (h : Succeeds (ofJson (.object members))) : IsSchema (.object members) := by
  by_cases hrecord : members.lookup "type" = some (.string "record")
  · obtain ⟨hheader, items, hitems, hfields⟩ := (succeeds_record hrecord).mp h
    refine .record hrecord hheader hitems (fun item hmem => ?_) fun item hmem type hfield => ?_
    · obtain ⟨type, hfield, -⟩ := hfields item hmem
      exact ⟨type, hfield⟩
    · obtain ⟨other, hother, hdecode⟩ := hfields item hmem
      rw [fieldWithType_unique hother hfield] at hdecode
      have htype := sizeOf_lt_of_fieldWithType hfield
      have hitem := sizeOf_lt_of_optionalItems hitems hmem
      exact ih type (Nat.lt_trans htype hitem) hdecode
  by_cases henum : members.lookup "type" = some (.string "enum")
  · obtain ⟨hheader, symbols, hsymbols, htexts⟩ := (succeeds_enum henum).mp h
    exact .enum henum hheader hsymbols htexts
  by_cases harray : members.lookup "type" = some (.string "array")
  · obtain ⟨items, hitems, hdecode⟩ := (succeeds_array harray).mp h
    exact .array harray hitems (ih items (Json.sizeOf_lt_of_lookup hitems) hdecode)
  by_cases hmap : members.lookup "type" = some (.string "map")
  · obtain ⟨values, hvalues, hdecode⟩ := (succeeds_map_object hmap).mp h
    exact .map hmap hvalues (ih values (Json.sizeOf_lt_of_lookup hvalues) hdecode)
  · refine .other fun kind hmem => ?_
    simp only [List.mem_cons, List.not_mem_nil, or_false] at hmem
    rcases hmem with rfl | rfl | rfl | rfl <;> assumption

/-- A value that decodes is in the grammar, by induction on its size. -/
theorem isSchema_of_succeeds (value : Json) (h : Succeeds (ofJson value)) : IsSchema value := by
  induction hsize : sizeOf value using Nat.strongRecOn generalizing value with
  | ind size ih =>
    subst hsize
    cases value with
    | null => exact .null
    | bool value => exact .bool value
    | number value => exact .number value
    | string value => exact .string value
    | array items =>
      refine .union fun item hmem => ih _ ?_ item (succeeds_union.mp h item hmem) rfl
      have := List.sizeOf_lt_of_mem hmem
      simp only [Json.array.sizeOf_spec]
      omega
    | object members =>
      refine isSchema_object_of_succeeds (fun value hvalue hdecode => ?_) h
      refine ih _ ?_ value hdecode rfl
      simp only [Json.object.sizeOf_spec]
      omega

/-- **The grammar of schemas.** A value decodes to a schema if and only if it is in the grammar. -/
theorem decodes_iff_isSchema (value : Json) :
    (∃ schema, ofJson value = .ok schema) ↔ IsSchema value :=
  ⟨isSchema_of_succeeds value, succeeds_of_isSchema⟩

end Schema

end AvroTypings
