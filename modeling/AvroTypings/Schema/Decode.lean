import AvroTypings.Decimal.Shortest
import AvroTypings.Json.Reader
import AvroTypings.Schema.Basic
import AvroTypings.Text.Visible

/-!
# From JSON values to schemas

A JSON value is decoded by its shape: a string is a name, a non-empty array a union, and an object
is what its attribute `type` says. Objects of an unsupported type and all other values are no
error; they decode to unknown schemas. Records, enums, arrays and maps must have the attributes
that their declarations are made from.

The attributes of an object are looked at in the order of their names, and the first one with an
unsuitable value is reported. For a record this includes the shape of all its fields, before the
type of any field is decoded.

## Main definitions

* `DecodeError`: why a text or a value is no schema, with the wording.
* `Schema.ofJson`: the schema of a JSON value.
* `Schema.parse`: the schema of a text.
-/

namespace AvroTypings

/-- What stands in a message for a value of the wrong kind. -/
def Json.describe : Json → String
  | .null => "null"
  | .bool value => "boolean `" ++ (if value then "true" else "false") ++ "`"
  | .number (.integer value) => "integer `" ++ toString value ++ "`"
  | .number (.double bits) => "floating point `" ++ (Double.ofBits bits).text ++ "`"
  | .string value => "string " ++ Text.visible value
  | .array _ => "sequence"
  | .object _ => "map"

/-- What an attribute, or an element of one, has to be. -/
inductive Expected where
  | text
  | sequence
  | field
  | wholeField
  | endOfField
  deriving DecidableEq

namespace Expected

/-- The wording of an expectation. -/
def message : Expected → String
  | text => "a string"
  | sequence => "a sequence"
  | field => "struct RawField"
  | wholeField => "struct RawField with 3 elements"
  | endOfField => "fewer elements in array"

end Expected

/-- Why a text or a value is not a schema. -/
inductive DecodeError where
  /-- The text is not a JSON value. -/
  | text (error : Json.TextError)
  /-- A value is of the wrong kind. -/
  | illTyped (found : Json) (expected : Expected)
  /-- A field given as an array has too few or too many elements. -/
  | wrongLength (length : Nat) (expected : Expected)
  /-- An attribute is missing. -/
  | missing (element key : String)

namespace DecodeError

/-- What is wrong with the text or with the kind of a value; `none` for a missing attribute, which
has no further cause. -/
def cause? : DecodeError → Option String
  | text error => some error.message
  | illTyped found expected =>
    some ("invalid type: " ++ found.describe ++ ", expected " ++ expected.message)
  | wrongLength length expected =>
    some ("invalid length " ++ toString length ++ ", expected " ++ expected.message)
  | missing _ _ => none

/-- The wording of an error. -/
def message (e : DecodeError) : String :=
  match e with
  | missing element key => "missing required attribute '" ++ key ++ "' on " ++ element
  | e => "JSON parsing error: " ++ e.cause?.getD ""

end DecodeError

namespace Schema

/-! ### Attributes -/

/-- An attribute that is a string, absent or null. -/
def textAttribute (value : Option Json) : Except DecodeError (Option String) :=
  match value with
  | none | some .null => .ok none
  | some (.string text) => .ok (some text)
  | some found => .error (.illTyped found .text)

/-- An attribute of any kind, for which null counts as absent. -/
def anyAttribute : Option Json → Option Json
  | some .null => none
  | value => value

/-- A field before its type is decoded. -/
structure FieldForm where
  name : Option String
  type : Option Json
  doc : Option String

/-- A field given as an array of its name, its type and its documentation. -/
def fieldOfItems (items : List Json) : Except DecodeError FieldForm :=
  match items with
  | [] => .error (.wrongLength 0 .wholeField)
  | name :: items => do
    let name ← textAttribute (some name)
    match items with
    | [] => throw (.wrongLength 1 .wholeField)
    | [_] => throw (.wrongLength 2 .wholeField)
    | type :: doc :: more =>
      let doc ← textAttribute (some doc)
      if more.isEmpty then return ⟨name, anyAttribute (some type), doc⟩
      else throw (.wrongLength (3 + more.length) .endOfField)

/-- A field given as an object, or as an array of its attributes. -/
def fieldForm (value : Json) : Except DecodeError FieldForm :=
  match value with
  | .object members => do
    let doc ← textAttribute (members.lookup "doc")
    let name ← textAttribute (members.lookup "name")
    return ⟨name, anyAttribute (members.lookup "type"), doc⟩
  | .array items => fieldOfItems items
  | found => .error (.illTyped found .field)

/-- The fields of a record object, as they are written. -/
def fieldItems (members : List (String × Json)) : List Json :=
  match members.lookup "fields" with
  | some (.array items) => items
  | _ => []

/-- Checks that an attribute is a sequence, absent or null, and each of its elements. -/
def checkSequence (value : Option Json) (element : Json → Except DecodeError Unit) :
    Except DecodeError Unit :=
  match value with
  | none | some .null => .ok ()
  | some (.array items) => items.forM element
  | some found => .error (.illTyped found .sequence)

/-- The header of a record object whose fields all have the shape of a field. -/
def recordHeader (members : List (String × Json)) : Except DecodeError Header := do
  let doc ← textAttribute (members.lookup "doc")
  checkSequence (members.lookup "fields") fun item => discard (fieldForm item)
  let name ← textAttribute (members.lookup "name")
  let scope ← textAttribute (members.lookup "namespace")
  return ⟨name, scope, doc⟩

/-- A symbol of an enum. -/
def symbolOf : Json → Except DecodeError String
  | .string symbol => .ok symbol
  | found => .error (.illTyped found .text)

/-- The symbols of an enum, `none` if the attribute is absent or null. -/
def symbolsAttribute : Option Json → Except DecodeError (Option (List String))
  | none | some .null => .ok none
  | some (.array items) => (items.mapM symbolOf).map some
  | some found => .error (.illTyped found .sequence)

/-- The enum that an object declares. -/
def enumOf (members : List (String × Json)) : Except DecodeError Schema := do
  let doc ← textAttribute (members.lookup "doc")
  let name ← textAttribute (members.lookup "name")
  let scope ← textAttribute (members.lookup "namespace")
  let header : Header := ⟨name, scope, doc⟩
  match ← symbolsAttribute (members.lookup "symbols") with
  | some symbols => return .enum header symbols
  | none => throw (.missing (header.label "enum") "symbols")

/-! ### Objects by type -/

/-- What the attribute `type` makes of an object. -/
inductive ObjectKind where
  | record
  | enum
  | array
  | map
  | primitive (type : Primitive)
  | unsupported

namespace ObjectKind

/-- The kind of object that a type name asks for. -/
def ofName (name : String) : ObjectKind :=
  if name = "record" then record
  else if name = "enum" then enum
  else if name = "array" then array
  else if name = "map" then map
  else
    match Primitive.ofName? name with
    | some p => primitive p
    | none => unsupported

/-- The kind of an object with the given members. Only a string can name a kind. -/
def of (members : List (String × Json)) : ObjectKind :=
  match members.lookup "type" with
  | some (.string name) => ofName name
  | _ => unsupported

end ObjectKind

/-! ### Sizes -/

theorem sizeOf_fieldItems_le (members : List (String × Json)) :
    sizeOf (fieldItems members) ≤ sizeOf members := by
  unfold fieldItems
  split
  · next items h =>
    have := Json.sizeOf_lt_of_lookup h
    simp only [Json.array.sizeOf_spec] at this
    omega
  · cases members with
    | nil => simp
    | cons member members =>
      simp only [List.nil.sizeOf_spec, List.cons.sizeOf_spec]
      omega

theorem eq_some_of_anyAttribute {value : Option Json} {type : Json}
    (h : anyAttribute value = some type) : value = some type := by
  unfold anyAttribute at h
  split at h
  · contradiction
  · exact h

theorem sizeOf_lt_of_fieldOfItems {items : List Json} {form : FieldForm} {type : Json}
    (h : fieldOfItems items = .ok form) (ht : form.type = some type) :
    sizeOf type < sizeOf items := by
  unfold fieldOfItems at h
  split at h
  · contradiction
  · next name items =>
    simp only [bind, Except.bind] at h
    split at h
    · contradiction
    · split at h
      · contradiction
      · contradiction
      · next doc more =>
        split at h
        · contradiction
        · split at h
          · cases h
            have := eq_some_of_anyAttribute ht
            cases this
            simp only [List.cons.sizeOf_spec]
            omega
          · contradiction

theorem sizeOf_lt_of_fieldForm {value : Json} {form : FieldForm} {type : Json}
    (h : fieldForm value = .ok form) (ht : form.type = some type) :
    sizeOf type < sizeOf value := by
  unfold fieldForm at h
  split at h
  · next members =>
    simp only [bind, Except.bind] at h
    split at h
    · contradiction
    · split at h
      · contradiction
      · cases h
        have := Json.sizeOf_lt_of_lookup (eq_some_of_anyAttribute ht)
        simp only [Json.object.sizeOf_spec]
        omega
  · next items =>
    have := sizeOf_lt_of_fieldOfItems h ht
    simp only [Json.array.sizeOf_spec]
    omega
  · contradiction

/-! ### Decoding -/

mutual

/-- The schema of a JSON value. -/
def ofJson (value : Json) : Except DecodeError Schema :=
  match value with
  | .string name => .ok (ofName name)
  | .array [] => .ok (.unknown (.array []))
  | .array (item :: items) => (listOfJson (item :: items)).map .union
  | .object members =>
    match ObjectKind.of members with
    | .record => do
      let header ← recordHeader members
      let fields ← fieldsOfJson (header.label "record") (fieldItems members)
      return .record header fields
    | .enum => enumOf members
    | .array =>
      match h : members.lookup "items" with
      | some items =>
        have := Json.sizeOf_lt_of_lookup h
        (ofJson items).map .array
      | none => .error (.missing "array" "items")
    | .map =>
      match h : members.lookup "values" with
      | some values =>
        have := Json.sizeOf_lt_of_lookup h
        (ofJson values).map .map
      | none => .error (.missing "map" "values")
    | .primitive p => .ok (.primitive p)
    | .unsupported => .ok (.unknown (.object members))
  | value => .ok (.unknown value)
termination_by sizeOf value
decreasing_by
  · simp
  · have := sizeOf_fieldItems_le members
    simp only [Json.object.sizeOf_spec]
    omega
  · simp only [Json.object.sizeOf_spec]
    omega
  · simp only [Json.object.sizeOf_spec]
    omega

/-- The schemas of JSON values, or the first error among them. -/
def listOfJson (values : List Json) : Except DecodeError (List Schema) :=
  match values with
  | [] => .ok []
  | value :: values => do
    let schema ← ofJson value
    let schemas ← listOfJson values
    return schema :: schemas
termination_by sizeOf values
decreasing_by all_goals simp only [List.cons.sizeOf_spec]; omega

/-- The fields of the record that messages call `element`. A field must have a name and a type. -/
def fieldsOfJson (element : String) (items : List Json) : Except DecodeError (List Field) :=
  match items with
  | [] => .ok []
  | item :: items =>
    match hform : fieldForm item with
    | .error e => .error e
    | .ok form =>
      match form.name with
      | none => .error (.missing element "fields[].name")
      | some name =>
        match htype : form.type with
        | none => .error (.missing ("field '" ++ name ++ "'") "type")
        | some type => do
          have := sizeOf_lt_of_fieldForm hform htype
          let schema ← ofJson type
          let fields ← fieldsOfJson element items
          return ⟨name, schema, form.doc⟩ :: fields
termination_by sizeOf items
decreasing_by all_goals simp only [List.cons.sizeOf_spec]; omega

end

/-- The schema of a text. -/
def parse (text : String) : Except DecodeError Schema :=
  match Json.parse text with
  | .ok value => ofJson value
  | .error e => .error (.text e)

end Schema

end AvroTypings
