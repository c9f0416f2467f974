import AvroTypings.Proofs.Hoisting

/-!
# The lines of fields

A field becomes a line of an interface: its name, a question mark if it is optional, the expression
of its type, and its documentation as a comment. This file says what a line holds.

A union with `null` among its members makes a field optional, and its type is what is left without
the `null` members. If a single member is left, it is resolved by itself; since a union of one
member resolves as this member does, the type of every such field is that of a union.

The documentation of a field is any text. It is folded into its words if it holds a line feed or a
carriage return, but not if it only holds one of the two other characters that end a line.

## Main definitions

* `Schema.nonNull`: the members of a union that are not `null`.
* `Schema.optionalLine`, `Schema.IsOptionalLine`: the lines of optional properties.
* `Text.IsOneLine`: texts without a character that ends a line.

## Main results

* `Schema.resolve_union_singleton`: a union of one member resolves as the member.
* `Schema.resolve_withoutNull`: what is left of a union with `null` resolves as the union of its
  other members.
* `Schema.property_of_union_with_null`: which fields are optional, and their types.
* `Text.isOneLine_onOneLine_iff`: which texts are folded into one line.
* `Schema.property_isOneLine_iff`: which fields stay on their line.
-/

namespace AvroTypings

/-! ### Optional fields -/

namespace Schema

/-- The members of a union that are not `null`, in order. -/
def nonNull (members : List Schema) : List Schema := members.filter fun member => !member.isNull

/-- The line of an optional property with the name and the documentation of a field. -/
def optionalLine (field : Field) (type : String) : String :=
  "  " ++ field.name ++ "?: " ++ type ++ ";" ++ trailingComment field.doc

/-- A line declares the property of the given name to be optional: a question mark and a colon
follow the name. -/
def IsOptionalLine (name line : String) : Prop := ∃ rest, line = "  " ++ name ++ "?: " ++ rest

section Nullable

variable {members : List Schema} {context : String} {out : List Declaration}

theorem isNull_iff {schema : Schema} : schema.isNull = true ↔ schema = .primitive .null := by
  constructor
  · exact eq_null_of_isNull
  · rintro rfl
    rfl

theorem isNullable_iff {schema : Schema} :
    schema.isNullable = true ↔
      ∃ members, schema = .union members ∧ .primitive .null ∈ members := by
  cases schema with
  | union members => simp [isNullable, isNull_iff]
  | _ => simp [isNullable]

theorem nonNull_eq_nil_iff :
    nonNull members = [] ↔ ∀ member ∈ members, member = .primitive .null := by
  simp [nonNull, List.filter_eq_nil_iff, isNull_iff]

/-- A union of one member resolves as the member does. -/
theorem resolve_union_singleton (member : Schema) (context : String) (out : List Declaration) :
    (Schema.union [member]).resolve context out = member.resolve context out := by
  simp [resolve, resolveAll, List.eraseDups_cons, String.intercalate_singleton]

theorem withoutNull_of_not_isNullable {schema : Schema} (h : schema.isNullable = false) :
    schema.withoutNull = schema := by
  cases schema with
  | union members =>
    rw [isNullable] at h
    simp [withoutNull, h]
  | _ => rfl

theorem any_isNull (hnull : .primitive .null ∈ members) : members.any isNull = true :=
  List.any_eq_true.mpr ⟨_, hnull, rfl⟩

/-- What is left of a union with `null` resolves as the union of its other members, also where a
single one is left. -/
theorem resolve_withoutNull (hnull : .primitive .null ∈ members) (hrest : nonNull members ≠ []) :
    (Schema.union members).withoutNull.resolve context out =
      (Schema.union (nonNull members)).resolve context out := by
  simp only [withoutNull, any_isNull hnull, if_true]
  split
  · next h => exact absurd h hrest
  · next member h => rw [nonNull, h, resolve_union_singleton]
  · rfl

theorem withoutNull_of_all_null (hnull : .primitive .null ∈ members)
    (hrest : nonNull members = []) : (Schema.union members).withoutNull = .primitive .null := by
  rw [nonNull] at hrest
  simp only [withoutNull, any_isNull hnull, if_true, hrest]

theorem propertyLine_of_isNullable {field : Field} (h : field.schema.isNullable = true)
    (type : String) : propertyLine field type = optionalLine field type := by
  simp [propertyLine, optionalLine, h, String.append_assoc]

/-- The line of a field has a question mark behind the name exactly if the field is optional. A
name that itself ends in a question mark is no exception. -/
theorem isOptionalLine_propertyLine (field : Field) (type : String) :
    IsOptionalLine field.name (propertyLine field type) ↔ field.schema.isNullable = true := by
  constructor
  · rintro ⟨rest, hrest⟩
    cases hrequired : field.schema.isNullable with
    | true => rfl
    | false =>
      rw [propertyLine, hrequired, ← String.toList_inj] at hrest
      simp at hrest
  · intro hnullable
    rw [propertyLine_of_isNullable hnullable]
    exact ⟨type ++ ";" ++ trailingComment field.doc, by simp [optionalLine, String.append_assoc]⟩

/-- The line and the declarations of a field whose type is a union with `null` and another
member. -/
theorem property_of_nonNull {field : Field} (hunion : field.schema = .union members)
    (hnull : .primitive .null ∈ members) (hrest : nonNull members ≠ []) (parent : String) :
    property field parent out =
      (optionalLine field ((Schema.union (nonNull members)).resolve
          (propertyContext parent field.name) out).1,
        ((Schema.union (nonNull members)).resolve (propertyContext parent field.name) out).2) := by
  have hnullable := isNullable_iff.mpr ⟨members, hunion, hnull⟩
  rw [property, propertyLine_of_isNullable hnullable, hunion, resolve_withoutNull hnull hrest]

theorem property_of_all_null {field : Field} (hunion : field.schema = .union members)
    (hnull : .primitive .null ∈ members) (hrest : nonNull members = []) (parent : String) :
    property field parent out = (optionalLine field "null", out) := by
  have hnullable := isNullable_iff.mpr ⟨members, hunion, hnull⟩
  rw [property, propertyLine_of_isNullable hnullable, hunion, withoutNull_of_all_null hnull hrest,
    resolve]
  rfl

/-- How often and where `null` stands in the type of an optional field makes no difference. -/
theorem property_congr_nonNull {field : Field} {others : List Schema}
    (hunion : field.schema = .union members) (hnull : .primitive .null ∈ members)
    (hothers : .primitive .null ∈ others) (hsame : nonNull others = nonNull members)
    (parent : String) :
    property { field with schema := .union others } parent out = property field parent out := by
  by_cases hrest : nonNull members = []
  · rw [property_of_all_null hunion hnull hrest,
      property_of_all_null rfl hothers (hsame.trans hrest)]
    rfl
  · rw [property_of_nonNull hunion hnull hrest,
      property_of_nonNull rfl hothers (hsame ▸ hrest), hsame]
    rfl

/-- **Optional fields.** A property is optional exactly if the type of its field is a union that has
`null` among its members. If it also has another member, the type expression and the declarations
are those of the union of the members that are not `null`, even if this is only one; otherwise the
type expression is `null`. So the line and the declarations depend on these members alone, and not
on the number of `null` members or the places where they stand. -/
theorem property_of_union_with_null (field : Field) (parent : String) (out : List Declaration) :
    (IsOptionalLine field.name (property field parent out).1 ↔
      ∃ members, field.schema = .union members ∧ .primitive .null ∈ members) ∧
    ∀ members, field.schema = .union members → .primitive .null ∈ members →
      ((∃ member ∈ members, member ≠ .primitive .null) →
        property field parent out =
          (optionalLine field ((Schema.union (nonNull members)).resolve
              (propertyContext parent field.name) out).1,
            ((Schema.union (nonNull members)).resolve
              (propertyContext parent field.name) out).2)) ∧
      ((∀ member ∈ members, member = .primitive .null) →
        property field parent out = (optionalLine field "null", out)) ∧
      ∀ others, .primitive .null ∈ others → nonNull others = nonNull members →
        property { field with schema := .union others } parent out = property field parent out := by
  constructor
  · rw [property, isOptionalLine_propertyLine, isNullable_iff]
  · intro members hunion hnull
    refine ⟨?_, ?_, ?_⟩
    · rintro ⟨member, hmem, hne⟩
      refine property_of_nonNull hunion hnull (fun hrest => hne ?_) parent
      exact nonNull_eq_nil_iff.mp hrest member hmem
    · intro hall
      exact property_of_all_null hunion hnull (nonNull_eq_nil_iff.mpr hall) parent
    · intro others hothers hsame
      exact property_congr_nonNull hunion hnull hothers hsame parent

end Nullable

end Schema

/-! ### Texts on one line -/

namespace Text

/-- The characters that end a line of TypeScript: line feed, carriage return, line separator and
paragraph separator. -/
def isLineTerminator (c : Char) : Bool :=
  c == '\n' || c == '\r' || c == '\u2028' || c == '\u2029'

/-- A text without a character that ends a line. -/
def IsOneLine (text : String) : Prop := ∀ c ∈ text.toList, isLineTerminator c = false

instance (text : String) : Decidable (IsOneLine text) :=
  List.decidableBAll (fun c => isLineTerminator c = false) text.toList

theorem isOneLine_iff {text : String} :
    IsOneLine text ↔ ('\n' ∉ text.toList ∧ '\r' ∉ text.toList) ∧
      '\u2028' ∉ text.toList ∧ '\u2029' ∉ text.toList := by
  constructor
  · intro h
    refine ⟨⟨?_, ?_⟩, ?_, ?_⟩ <;>
    · intro hmem
      cases h _ hmem
  · rintro ⟨⟨hfeed, hreturn⟩, hline, hparagraph⟩ c hc
    have hne (other : Char) (hother : other ∉ text.toList) : (c == other) = false :=
      beq_false_of_ne fun heq => hother (heq ▸ hc)
    simp only [isLineTerminator, hne _ hfeed, hne _ hreturn, hne _ hline, hne _ hparagraph,
      Bool.or_false]

@[simp] theorem isOneLine_append {a b : String} :
    IsOneLine (a ++ b) ↔ IsOneLine a ∧ IsOneLine b := by
  simp only [IsOneLine, String.toList_append, List.forall_mem_append]

theorem isOneLine_intercalate {separator : String} {texts : List String}
    (hseparator : IsOneLine separator) (h : ∀ text ∈ texts, IsOneLine text) :
    IsOneLine (separator.intercalate texts) := by
  induction texts with
  | nil =>
    rw [String.intercalate_nil]
    decide
  | cons text texts ih =>
    obtain ⟨htext, hothers⟩ := List.forall_mem_cons.mp h
    by_cases hlast : texts = []
    · rwa [hlast, String.intercalate_singleton]
    · rw [String.intercalate_cons_of_ne_nil hlast]
      exact isOneLine_append.mpr ⟨isOneLine_append.mpr ⟨htext, hseparator⟩, ih hothers⟩

/-- The pieces of a list between the elements with a property do not have the property. -/
theorem not_of_mem_splitOnP {p : Char → Bool} {letters run : List Char}
    (hrun : run ∈ letters.splitOnP p) : ∀ c ∈ run, p c = false := by
  induction letters generalizing run with
  | nil =>
    rw [List.splitOnP_nil, List.mem_singleton] at hrun
    simp [hrun]
  | cons letter letters ih =>
    rw [List.splitOnP_cons_eq_if_modifyHead] at hrun
    split at hrun
    · rcases List.mem_cons.mp hrun with rfl | hrun
      · simp
      · exact ih hrun
    · next hletter =>
      -- the letter joins the first of the pieces behind it
      obtain ⟨first, others, hpieces⟩ := List.exists_cons_of_ne_nil (List.splitOnP_ne_nil p letters)
      rw [hpieces, List.modifyHead_cons] at hrun
      rw [hpieces] at ih
      rcases List.mem_cons.mp hrun with rfl | hrun
      · exact List.forall_mem_cons.mpr ⟨by simpa using hletter, ih List.mem_cons_self⟩
      · exact ih (List.mem_cons_of_mem first hrun)

theorem isBlank_eq_false_of_mem_words {text word : String} (hword : word ∈ words text) :
    ∀ c ∈ word.toList, isBlank c = false := by
  obtain ⟨run, hrun, rfl⟩ := List.mem_map.mp hword
  rw [String.toList_ofList]
  exact not_of_mem_splitOnP (List.mem_filter.mp hrun).1

/-- Every character that ends a line is blank. -/
theorem isBlank_of_isLineTerminator {c : Char} (h : isLineTerminator c = true) :
    isBlank c = true := by
  simp only [isLineTerminator, Bool.or_eq_true, beq_iff_eq] at h
  rcases h with ((rfl | rfl) | rfl) | rfl <;> rfl

theorem any_isLineBreak_iff {text : String} :
    text.toList.any isLineBreak = true ↔ '\n' ∈ text.toList ∨ '\r' ∈ text.toList := by
  simp [isLineBreak, List.any_eq_true, and_or_left, exists_or]

/-- A text is folded into one line, unless it holds a separator of lines or of paragraphs and no
line break. -/
theorem isOneLine_onOneLine_iff {text : String} :
    IsOneLine (onOneLine text) ↔
      ('\u2028' ∈ text.toList ∨ '\u2029' ∈ text.toList) →
        '\n' ∈ text.toList ∨ '\r' ∈ text.toList := by
  unfold onOneLine
  split
  · next hsome =>
    refine iff_of_true (isOneLine_intercalate (by decide) fun word hword c hc => ?_) fun _ =>
      any_isLineBreak_iff.mp hsome
    rw [Bool.eq_false_iff]
    intro hend
    have hblank := isBlank_of_isLineTerminator hend
    rw [isBlank_eq_false_of_mem_words hword c hc] at hblank
    contradiction
  · next hnone =>
    rw [any_isLineBreak_iff] at hnone
    rw [isOneLine_iff, and_iff_right (not_or.mp hnone), ← not_or]
    exact ⟨fun hkept hsome => absurd hsome hkept, fun h hsome => hnone (h hsome)⟩

end Text

/-! ### Fields on one line -/

namespace Schema

open Text (IsOneLine isOneLine_append isOneLine_intercalate isOneLine_onOneLine_iff)

/-- The name that a node spells out: the explicit name of a record or an enum, or a reference. -/
def spelledName : Schema → Option String
  | .named name => some name
  | .enum header _ => header.name
  | .record header _ => header.name
  | _ => none

/-- Every explicit name and every reference in a schema is on one line. -/
def NamesOnOneLine (schema : Schema) : Prop :=
  ∀ node, Occurs node schema → ∀ name, node.spelledName = some name → IsOneLine name

theorem NamesOnOneLine.of_occurs {node schema : Schema} (h : schema.NamesOnOneLine)
    (hnode : Occurs node schema) : node.NamesOnOneLine :=
  fun other hother => h other (hother.trans hnode)

theorem NamesOnOneLine.getD {schema : Schema} (h : schema.NamesOnOneLine) {default : String}
    (hdefault : IsOneLine default) : IsOneLine (schema.spelledName.getD default) := by
  cases hname : schema.spelledName with
  | none => exact hdefault
  | some name => exact h schema .self name hname

/-- The expression of a schema is on one line if the context and all names are. -/
theorem isOneLine_expression {schema : Schema} (h : schema.NamesOnOneLine) {context : String}
    (hcontext : IsOneLine context) : IsOneLine (schema.expression context) := by
  induction schema generalizing context with
  | primitive type =>
    rw [expression_primitive]
    cases type <;> decide
  | named name =>
    rw [expression_named]
    exact h _ .self name rfl
  | unknown value =>
    rw [expression_unknown]
    decide
  | enum header symbols =>
    rw [expression_enum]
    exact h.getD (isOneLine_append.mpr ⟨hcontext, by decide⟩)
  | record header fields _ _ =>
    rw [expression_record]
    exact h.getD hcontext
  | array items ih =>
    have hinner : IsOneLine (nestedName context "Item") :=
      isOneLine_append.mpr ⟨hcontext, by decide⟩
    rw [expression_array]
    exact isOneLine_append.mpr ⟨ih (h.of_occurs (.array .self)) hinner, by decide⟩
  | map values ih =>
    have hinner : IsOneLine (nestedName context "Value") :=
      isOneLine_append.mpr ⟨hcontext, by decide⟩
    have hvalues := ih (h.of_occurs (.map .self)) hinner
    rw [expression_map]
    exact isOneLine_append.mpr ⟨isOneLine_append.mpr ⟨by decide, hvalues⟩, by decide⟩
  | union members ih =>
    rw [expression_union]
    refine isOneLine_intercalate (by decide) fun text htext => ?_
    rw [List.mem_eraseDups, List.mem_map] at htext
    obtain ⟨member, hmem, rfl⟩ := htext
    exact ih member hmem (h.of_occurs (.union hmem .self)) hcontext

/-- Leaving out `null` members adds no name. -/
theorem NamesOnOneLine.nonNull {members : List Schema} (h : (Schema.union members).NamesOnOneLine) :
    (Schema.union (nonNull members)).NamesOnOneLine := by
  intro node hnode name hname
  rcases occurs_union.mp hnode with rfl | ⟨member, hmem, hnode⟩
  · cases hname
  · exact h node (.union (List.mem_filter.mp hmem).1 hnode) name hname

theorem isOneLine_expression_withoutNull {schema : Schema} (h : schema.NamesOnOneLine)
    {context : String} (hcontext : IsOneLine context) :
    IsOneLine (schema.withoutNull.expression context) := by
  cases hnullable : schema.isNullable with
  | false =>
    rw [withoutNull_of_not_isNullable hnullable]
    exact isOneLine_expression h hcontext
  | true =>
    obtain ⟨members, rfl, hnull⟩ := isNullable_iff.mp hnullable
    by_cases hrest : Schema.nonNull members = []
    · rw [withoutNull_of_all_null hnull hrest, expression_primitive]
      decide
    · rw [expression, resolve_withoutNull hnull hrest]
      exact isOneLine_expression h.nonNull hcontext

/-- A comment is on one line unless its text is one that is not folded. -/
theorem isOneLine_trailingComment_iff {doc : Option String} :
    IsOneLine (trailingComment doc) ↔ ∀ text, doc = some text →
      ('\u2028' ∈ text.toList ∨ '\u2029' ∈ text.toList) →
        '\n' ∈ text.toList ∨ '\r' ∈ text.toList := by
  cases doc with
  | none => exact iff_of_true (by decide) nofun
  | some text =>
    have hcomment : IsOneLine (trailingComment (some text)) ↔ IsOneLine (Text.onOneLine text) := by
      by_cases hempty : text = ""
      · subst hempty
        decide
      · simp only [trailingComment, String.isEmpty_iff, hempty, if_false, isOneLine_append]
        exact and_iff_right (by decide)
    rw [hcomment, isOneLine_onOneLine_iff]
    exact ⟨fun h _ hsome => Option.some.inj hsome ▸ h, fun h => h text rfl⟩

/-- **Fields on one line.** Let the name of a field, that of its record, and all explicit names and
references in its type be on one line. Then the line of the field is a single one exactly if its
documentation is none that holds a separator of lines or of paragraphs but neither a line feed nor a
carriage return. -/
theorem property_isOneLine_iff {field : Field} {parent : String} (hname : IsOneLine field.name)
    (hparent : IsOneLine parent) (htype : field.schema.NamesOnOneLine) (out : List Declaration) :
    IsOneLine (property field parent out).1 ↔
      ¬ ∃ doc, field.doc = some doc ∧ ('\u2028' ∈ doc.toList ∨ '\u2029' ∈ doc.toList) ∧
        '\n' ∉ doc.toList ∧ '\r' ∉ doc.toList := by
  have hcontext : IsOneLine (propertyContext parent field.name) :=
    isOneLine_append.mpr ⟨isOneLine_append.mpr ⟨hparent, by decide⟩, hname⟩
  have hexpression := isOneLine_expression_withoutNull htype hcontext
  have hmark : IsOneLine (if field.schema.isNullable then "?" else "") := by
    split <;> decide
  have hcode : IsOneLine ("  " ++ field.name ++ (if field.schema.isNullable then "?" else "")
      ++ ": " ++ field.schema.withoutNull.expression (propertyContext parent field.name)
      ++ ";") := by
    simp only [isOneLine_append]
    exact ⟨⟨⟨⟨⟨by decide, hname⟩, hmark⟩, by decide⟩, hexpression⟩, by decide⟩
  rw [property, hoists _ _ none, propertyLine, isOneLine_append, and_iff_right hcode,
    isOneLine_trailingComment_iff]
  simp only [not_exists, not_and, ← not_or, Classical.not_not]

/-- A documentation with both kinds of line ends is folded into its words. -/
theorem separator_next_to_line_feed_is_folded :
    let field : Field := ⟨"id", .union [.primitive .null, .named "Key"], some "Primary\n\u2028key"⟩
    (IsOneLine field.name ∧ IsOneLine "Ping" ∧ field.schema.NamesOnOneLine) ∧
      IsOneLine (property field "Ping" []).1 := by
  intro field
  have hname : IsOneLine field.name := by decide
  have hparent : IsOneLine "Ping" := by decide
  have htype : field.schema.NamesOnOneLine := by
    intro node hnode name hspelled
    simp only [field, occurs_union, List.mem_cons, List.not_mem_nil, or_false, exists_eq_or_imp,
      occurs_primitive, exists_eq_left, occurs_named] at hnode
    rcases hnode with rfl | rfl | rfl
    · cases hspelled
    · cases hspelled
    · cases hspelled
      decide
  refine ⟨⟨hname, hparent, htype⟩, (property_isOneLine_iff hname hparent htype []).mpr ?_⟩
  rintro ⟨doc, hdoc, -, hfeed, -⟩
  cases hdoc
  exact hfeed (by decide)

/-- A line separator in the documentation of a field ends its line, although no name holds one. -/
theorem line_separator_ends_comment :
    let field : Field := ⟨"id", .primitive .string, some "Primary\u2028key"⟩
    IsOneLine field.name ∧ IsOneLine "Ping" ∧ field.schema.NamesOnOneLine ∧
      ¬ IsOneLine (property field "Ping" []).1 := by
  intro field
  refine ⟨by decide, by decide, ?_, ?_⟩
  · intro node hnode name hspelled
    rw [occurs_primitive.mp hnode] at hspelled
    cases hspelled
  · simp only [field, property, withoutNull, resolve]
    decide

end Schema

end AvroTypings
