import AvroTypings.Proofs.NormalForm

/-!
# How deeply texts and schemas nest

The reader of JSON texts opens no more arrays and objects inside each other than its budget allows.
Behind it nothing counts levels any more: neither does the decoder of schemas, nor any walk over a
schema. This file carries the limit of the reader over to schemas. Each schema has a weight, which
counts the arrays and objects that it takes at least to write it down: three for a record with
fields, namely the record, the list of its fields and a field.

## Main definitions

* `Json.NestsWithin`: a reader whose values nest no deeper than a bound.
* `Schema.weight`: the number of levels that a schema takes.

## Main results

* `Json.nestsWithin_value`: a value nests no deeper than the budget it is read with.
* `Json.nesting_le_of_parse`: what a text can nest.
* `Schema.weight_le_nesting`: a schema weighs no more than the value that it is decoded from nests.
-/

namespace AvroTypings

/-- A function that takes the largest value in a list is bounded by what bounds them all. -/
theorem le_iff_of_cons {α : Type} {f : List α → Nat} {g : α → Nat} (hnil : f [] = 0)
    (hcons : ∀ a l, f (a :: l) = max (g a) (f l)) {l : List α} {n : Nat} :
    f l ≤ n ↔ ∀ a ∈ l, g a ≤ n := by
  induction l with
  | nil => simp [hnil]
  | cons a l ih => rw [hcons, Nat.max_le, ih, List.forall_mem_cons]

namespace Json

/-! ### Values -/

section Values

variable {items : List Json} {members : List (String × Json)} {n : Nat}

theorem itemsNesting_le_iff : itemsNesting items ≤ n ↔ ∀ item ∈ items, item.nesting ≤ n :=
  le_iff_of_cons rfl fun _ _ => rfl

theorem membersNesting_le_iff :
    membersNesting members ≤ n ↔ ∀ member ∈ members, member.2.nesting ≤ n :=
  le_iff_of_cons rfl fun _ _ => rfl

theorem nesting_array_le_iff :
    (array items).nesting ≤ n + 1 ↔ ∀ item ∈ items, item.nesting ≤ n := by
  rw [nesting, Nat.add_comm, Nat.add_le_add_iff_right, itemsNesting_le_iff]

theorem nesting_object_le_iff :
    (object members).nesting ≤ n + 1 ↔ ∀ member ∈ members, member.2.nesting ≤ n := by
  rw [nesting, Nat.add_comm, Nat.add_le_add_iff_right, membersNesting_le_iff]

theorem nesting_lt_of_mem {item : Json} (h : item ∈ items) :
    item.nesting < (array items).nesting := by
  have hle := itemsNesting_le_iff.mp (Nat.le_refl (itemsNesting items)) item h
  rw [nesting]
  omega

theorem nesting_lt_of_lookup {name : String} {value : Json} (h : members.lookup name = some value) :
    value.nesting < (object members).nesting := by
  obtain ⟨before, after, hmembers, -⟩ := List.lookup_eq_some_iff.mp h
  have hmem : (name, value) ∈ members := by simp [hmembers]
  have hle : value.nesting ≤ membersNesting members :=
    membersNesting_le_iff.mp (Nat.le_refl _) _ hmem
  rw [nesting]
  omega

end Values

/-! ### The reader -/

/-- A reader whose values nest at most `n` arrays and objects. -/
def NestsWithin (n : Nat) (item : ValueReader) : Prop :=
  ∀ cs read, item cs = .ok read → read.value.nesting ≤ n

section Reader

variable {item : ValueReader} {n bound : Nat} {cs : List Char}

theorem nesting_moreItems_le (hitem : NestsWithin n item) {seen : List Json}
    {h : cs.length ≤ bound} {read : Parsed Json bound} (hseen : ∀ value ∈ seen, value.nesting ≤ n)
    (hread : moreItems item seen cs h = .ok read) : read.value.nesting ≤ n + 1 := by
  fun_induction moreItems item seen cs h with
  | case2 =>
    -- the closing bracket
    cases hread
    exact nesting_array_le_iff.mpr fun value hmem => hseen value (List.mem_reverse.mp hmem)
  | case6 seen cs h tail d tail' htail hnext first hfirst _ _ _ _ ih =>
    -- a further item
    exact ih (List.forall_mem_cons.mpr ⟨hitem _ first hfirst, hseen⟩) hread
  | _ => cases hread

theorem nesting_items_le (hitem : NestsWithin n item) {read : Parsed Json (cs.length + 1)}
    (hread : items item cs = .ok read) : read.value.nesting ≤ n + 1 := by
  unfold items at hread
  split at hread
  · cases hread
  · split at hread
    · cases hread
      exact nesting_array_le_iff.mpr (by simp)
    · split at hread
      · cases hread
      · next first hfirst =>
        exact nesting_moreItems_le hitem (by simpa using hitem _ first hfirst) hread

theorem nesting_member_le (hitem : NestsWithin n item) {read : Parsed (String × Json) cs.length}
    (hread : member item cs = .ok read) : read.value.2.nesting ≤ n := by
  obtain ⟨name, -, hread⟩ := bind_eq_ok.mp hread
  split at hread
  · cases hread
  · split at hread
    · cases hread
    · obtain ⟨value, hvalue, hread⟩ := bind_eq_ok.mp hread
      cases hread
      exact hitem _ value hvalue

/-- Setting a member brings in no other value. -/
theorem mem_or_eq_of_mem_put {name : String} {value : Json} {members : List (String × Json)}
    {member : String × Json} (h : member ∈ put name value members) :
    member ∈ members ∨ member.2 = value := by
  induction members with
  | nil =>
    cases List.mem_singleton.mp h
    exact .inr rfl
  | cons other members ih =>
    rw [put] at h
    split at h
    · rcases List.mem_cons.mp h with rfl | hmem
      · exact .inr rfl
      · exact .inl (List.mem_cons_of_mem _ hmem)
    · rcases List.mem_cons.mp h with rfl | hmem
      · exact .inl List.mem_cons_self
      · exact (ih hmem).imp_left (List.mem_cons_of_mem _)

theorem nesting_moreMembers_le (hitem : NestsWithin n item) {seen : List (String × Json)}
    {h : cs.length ≤ bound} {read : Parsed Json bound}
    (hseen : ∀ member ∈ seen, member.2.nesting ≤ n)
    (hread : moreMembers item seen cs h = .ok read) : read.value.nesting ≤ n + 1 := by
  fun_induction moreMembers item seen cs h with
  | case2 =>
    cases hread
    exact nesting_object_le_iff.mpr hseen
  | case6 seen cs h tail tail' first hfirst _ _ _ _ _ _ ih =>
    refine ih (fun member hmem => ?_) hread
    rcases mem_or_eq_of_mem_put hmem with hmem | hvalue
    · exact hseen member hmem
    · rw [hvalue]
      exact nesting_member_le hitem hfirst
  | _ => cases hread

theorem nesting_members_le (hitem : NestsWithin n item) {read : Parsed Json (cs.length + 1)}
    (hread : members item cs = .ok read) : read.value.nesting ≤ n + 1 := by
  unfold members at hread
  split at hread
  · cases hread
  · split at hread
    · cases hread
      exact nesting_object_le_iff.mpr (by simp)
    · split at hread
      · split at hread
        · cases hread
        · next first hfirst =>
          exact nesting_moreMembers_le hitem (by simpa using nesting_member_le hitem hfirst) hread
      · cases hread

theorem value_eq_of_word {value : Json} {letters : List Char} {h : cs.length < bound}
    {read : Parsed Json bound} (hread : word value letters cs h = .ok read) :
    read.value = value := by
  fun_induction word value letters cs h with
  | case1 =>
    cases hread
    rfl
  | case3 _ _ _ _ ih => exact ih hread
  | _ => cases hread

/-- What is neither an array nor an object nests nothing. -/
theorem nesting_scalar (c : Char) {read : Parsed Json (cs.length + 1)} :
    scalar c cs = .ok read → read.value.nesting = 0 := by
  fun_cases scalar c cs with
  | case1 | case2 | case3 =>
    intro hread
    rw [value_eq_of_word hread]
    simp [nesting]
  | case4 | case5 =>
    intro hread
    obtain ⟨found, -, rfl⟩ := Schema.map_eq_ok.mp hread
    simp [nesting]
  | case6 => nofun

/-- A value nests no more arrays and objects than the budget that it is read with. -/
theorem nestsWithin_value (budget : Nat) : NestsWithin budget (value budget) := by
  induction budget with
  | zero =>
    intro cs read hread
    unfold value at hread
    split at hread
    · cases hread
    · split at hread
      · cases hread
      · split at hread
        · cases hread
        · obtain ⟨found, hfound, rfl⟩ := Schema.map_eq_ok.mp hread
          exact Nat.le_of_eq (nesting_scalar _ hfound)
  | succ budget ih =>
    intro cs read hread
    unfold value at hread
    split at hread
    · cases hread
    · split at hread
      · obtain ⟨found, hfound, rfl⟩ := Schema.map_eq_ok.mp hread
        exact nesting_items_le ih hfound
      · split at hread
        · obtain ⟨found, hfound, rfl⟩ := Schema.map_eq_ok.mp hread
          exact nesting_members_le ih hfound
        · obtain ⟨found, hfound, rfl⟩ := Schema.map_eq_ok.mp hread
          exact Nat.le_trans (Nat.le_of_eq (nesting_scalar _ hfound)) (Nat.zero_le _)

end Reader

/-- What a text denotes nests at most as many arrays and objects as a text may. -/
theorem nesting_le_of_parse {text : String} {value : Json} (h : parse text = .ok value) :
    value.nesting ≤ levels := by
  unfold parse at h
  split at h
  · next found hread =>
    cases h
    obtain ⟨read, hvalue, hread⟩ := bind_eq_ok.mp hread
    split at hread
    · cases hread
      exact nestsWithin_value levels _ _ hvalue
    · cases hread
  · cases h

end Json

/-! ### Schemas -/

namespace Schema

mutual

/-- The weight of a schema: a union, an array or a map takes one level more than what it holds, and
a record takes three levels more than the types of its fields, or one if it has none. -/
def weight : Schema → Nat
  | .union members => 1 + listWeight members
  | .array items => 1 + weight items
  | .map values => 1 + weight values
  | .record _ fields => if fields.isEmpty then 1 else 3 + fieldsWeight fields
  | .primitive _ => 0
  | .named _ => 0
  | .enum _ _ => 0
  | .unknown _ => 0

/-- The largest weight of schemas. -/
def listWeight : List Schema → Nat
  | [] => 0
  | schema :: schemas => max (weight schema) (listWeight schemas)

/-- The largest weight of the types of fields. -/
def fieldsWeight : List Field → Nat
  | [] => 0
  | ⟨_, schema, _⟩ :: fields => max (weight schema) (fieldsWeight fields)

end

theorem listWeight_le_iff {schemas : List Schema} {n : Nat} :
    listWeight schemas ≤ n ↔ ∀ schema ∈ schemas, schema.weight ≤ n :=
  le_iff_of_cons rfl fun _ _ => rfl

theorem fieldsWeight_le_iff {fields : List Field} {n : Nat} :
    fieldsWeight fields ≤ n ↔ ∀ field ∈ fields, field.schema.weight ≤ n :=
  le_iff_of_cons rfl fun _ _ => rfl

theorem weight_union_le_iff {members : List Schema} {n : Nat} :
    (Schema.union members).weight ≤ n + 1 ↔ ∀ member ∈ members, member.weight ≤ n := by
  rw [weight, Nat.add_comm, Nat.add_le_add_iff_right, listWeight_le_iff]

theorem weight_record_le_iff {header : Header} {fields : List Field} {n : Nat} :
    (Schema.record header fields).weight ≤ n + 1 ↔
      ∀ field ∈ fields, field.schema.weight + 2 ≤ n := by
  cases fields with
  | nil => simp [weight]
  | cons first fields =>
    have hle := fieldsWeight_le_iff.mp (Nat.le_refl (fieldsWeight (first :: fields)))
    rw [weight, if_neg (by simp)]
    constructor
    · intro h field hmem
      have := hle field hmem
      omega
    · intro h
      have hfirst := h first List.mem_cons_self
      have hall : fieldsWeight (first :: fields) ≤ n - 2 :=
        fieldsWeight_le_iff.mpr fun field hmem => Nat.le_sub_of_add_le (h field hmem)
      omega

/-! ### Decoding -/

/-- The type of a field is nested in the field. -/
theorem nesting_lt_of_fieldWithType {item type : Json} (h : FieldWithType item type) :
    type.nesting < item.nesting := by
  cases h with
  | object _ htype _ _ => exact Json.nesting_lt_of_lookup htype
  | array _ _ => exact Json.nesting_lt_of_mem (by simp)

/-- An item of a sequence is nested in the sequence, and with it in the object. -/
theorem nesting_lt_of_optionalItems {members : List (String × Json)} {name : String}
    {items : List Json} {item : Json} (h : OptionalItems (members.lookup name) items)
    (hmem : item ∈ items) : item.nesting + 1 < (Json.object members).nesting := by
  generalize hvalue : members.lookup name = value at h
  cases h with
  | absent => cases hmem
  | null => cases hmem
  | array items =>
    have hitem := Json.nesting_lt_of_mem hmem
    have hitems := Json.nesting_lt_of_lookup hvalue
    omega

/-- A schema weighs no more than the value that it is decoded from nests. -/
theorem weight_le_nesting {value : Json} {schema : Schema} (h : ofJson value = .ok schema) :
    schema.weight ≤ value.nesting := by
  refine decoding_induction h ?name ?unknown ?primitive ?union ?array ?map ?enum ?record
  case name =>
    intro name
    unfold ofName
    split <;> simp [weight]
  case unknown => simp [weight]
  case primitive => simp [weight]
  case enum => simp [weight]
  case union =>
    intro items schemas _ hschemas
    rw [Json.nesting, Nat.add_comm, weight_union_le_iff]
    refine forall_mem_of_forall₂ (forall₂_of_mem hschemas fun item hmem schema hle => ?_)
    exact Nat.le_trans hle (Json.itemsNesting_le_iff.mp (Nat.le_refl _) item hmem)
  case array =>
    intro members items schema hitems hle
    have hlt := Json.nesting_lt_of_lookup hitems
    rw [weight]
    omega
  case map =>
    intro members values schema hvalues hle
    have hlt := Json.nesting_lt_of_lookup hvalues
    rw [weight]
    omega
  case record =>
    intro members header items fields hitems hfields
    rw [Json.nesting, Nat.add_comm, weight_record_le_iff]
    refine forall_mem_of_forall₂ (forall₂_of_mem hfields fun item hmem field hfield => ?_)
    -- the object of the record, the array of its fields, and the field itself
    obtain ⟨type, htype, -, hle⟩ := hfield
    have hitem := nesting_lt_of_fieldWithType htype
    have hobject := nesting_lt_of_optionalItems hitems hmem
    rw [Json.nesting] at hobject
    omega

/-- A schema that is read from a text weighs at most as much as a text may nest. -/
theorem weight_le_levels {text : String} {schema : Schema} (h : parse text = .ok schema) :
    schema.weight ≤ Json.levels := by
  unfold parse at h
  split at h
  · next value hvalue => exact Nat.le_trans (weight_le_nesting h) (Json.nesting_le_of_parse hvalue)
  · cases h

end Schema

end AvroTypings
