import AvroTypings.Proofs.Nesting
import AvroTypings.Proofs.References
import AvroTypings.Schema.Check

/-!
# How deeply the walks over a schema call themselves

Three walks go down into a schema: the check for repetitions, the collection of the declared and the
referenced names, and the resolution to a type expression. None of them counts how deeply its calls
are nested. In this file each walk is written once more as a *body*, in which the calls of the walk
to itself are a parameter. A body can be run with a limit on nested calls, and then has no result if
the limit is too low. With the weight of the schema as the limit, the result is that of the walk.

A body is run with right answers for lighter schemas in one lemma for each walk; that the limit
shrinks by one with each nested call, and the weight at least by one, is said once for all walks.

## Main definitions

* `callsWithin`: a body that is run with a limit on nested calls.
* `Schema.checkBody`, `Schema.namesBody`, `Schema.resolveBody`: the bodies of the three walks.
* `Schema.RunsWithin`: a limit that is high enough for all of them.

## Main results

* `callsWithin_eq_some`: a limit that is as high as a decreasing measure is high enough.
* `Schema.weight_bounds_nesting_and_calls`: the weight of a schema is bounded by the nesting of what
  it is read from, and bounds the nesting of calls.
-/

namespace AvroTypings

/-! ### Limited calls -/

/-- A recursive function, given by its body, with at most `depth` calls nested in the outermost one.
A call that would be nested deeper has no result. -/
def callsWithin {α β : Type} (body : (α → Option β) → α → Option β) : Nat → α → Option β
  | 0 => body fun _ => none
  | depth + 1 => body (callsWithin body depth)

/-- If a body gives the right answer as soon as its calls do so for smaller arguments, then the size
of an argument is a sufficient limit. -/
theorem callsWithin_eq_some {α β : Type} {body : (α → Option β) → α → Option β} (f : α → β)
    (size : α → Nat)
    (hbody : ∀ call a, (∀ b, size b < size a → call b = some (f b)) → body call a = some (f a))
    {depth : Nat} {a : α} (h : size a ≤ depth) : callsWithin body depth a = some (f a) := by
  induction depth generalizing a with
  | zero => exact hbody _ a fun b hlt => absurd hlt (by omega)
  | succ depth ih => exact hbody _ a fun b hlt => ih (by omega)

namespace Schema

/-! ### Lighter parts -/

theorem weight_lt_of_mem_members {member : Schema} {members : List Schema} (h : member ∈ members) :
    member.weight < (Schema.union members).weight := by
  have hle := listWeight_le_iff.mp (Nat.le_refl (listWeight members)) member h
  rw [weight]
  omega

theorem weight_lt_of_mem_fields {header : Header} {field : Field} {fields : List Field}
    (h : field ∈ fields) : field.schema.weight < (Schema.record header fields).weight := by
  have hle := fieldsWeight_le_iff.mp (Nat.le_refl (fieldsWeight fields)) field h
  rw [weight, if_neg (by simpa using List.ne_nil_of_mem h)]
  omega

/-- A schema without its `null` members is no heavier. -/
theorem weight_withoutNull_le (schema : Schema) : schema.withoutNull.weight ≤ schema.weight := by
  unfold withoutNull
  split
  · next members =>
    have hlighter (member : Schema) (hmem : member ∈ members.filter fun member => !member.isNull) :
        member.weight < (Schema.union members).weight :=
      weight_lt_of_mem_members (List.mem_filter.mp hmem).1
    split
    · split
      · exact Nat.zero_le _
      · next member hrest => exact Nat.le_of_lt (hlighter member (hrest ▸ List.mem_cons_self))
      · have hunion : (Schema.union members).weight = listWeight members + 1 := by
          rw [weight, Nat.add_comm]
        rw [hunion] at hlighter ⊢
        exact weight_union_le_iff.mpr fun member hmem => Nat.le_of_lt_succ (hlighter member hmem)
    · exact Nat.le_refl _
  · exact Nat.le_refl _

/-! ### The check -/

/-- Checks schemas one after the other. -/
def checkEach (call : Schema → Option (Except SchemaError Unit)) :
    List Schema → Option (Except SchemaError Unit)
  | [] => some (.ok ())
  | schema :: schemas => do
    match ← call schema with
    | .error e => some (.error e)
    | .ok () => checkEach call schemas

/-- Checks fields one after the other, each name before the type. -/
def checkEachField (call : Schema → Option (Except SchemaError Unit)) (record : String)
    (seen : List String) : List Field → Option (Except SchemaError Unit)
  | [] => some (.ok ())
  | ⟨name, schema, _⟩ :: fields =>
    if seen.contains name then some (.error (.duplicateField record name))
    else do
      match ← call schema with
      | .error e => some (.error e)
      | .ok () => checkEachField call record (name :: seen) fields

/-- The check of a schema, with the checks of its parts as a parameter. -/
def checkBody (call : Schema → Option (Except SchemaError Unit)) :
    Schema → Option (Except SchemaError Unit)
  | .record header fields => checkEachField call (header.name.getD "") [] fields
  | .enum header symbols => some (checkSymbols (header.name.getD "") [] symbols)
  | .union members => checkEach call members
  | .array items => call items
  | .map values => call values
  | .primitive _ => some (.ok ())
  | .named _ => some (.ok ())
  | .unknown _ => some (.ok ())

theorem checkEach_eq {call : Schema → Option (Except SchemaError Unit)} {schemas : List Schema}
    (h : ∀ schema ∈ schemas, call schema = some schema.check) :
    checkEach call schemas = some (checkAll schemas) := by
  induction schemas with
  | nil => rfl
  | cons schema schemas ih =>
    obtain ⟨hschema, hschemas⟩ := List.forall_mem_cons.mp h
    rw [checkEach, checkAll, hschema]
    cases schema.check with
    | error e => rfl
    | ok _ => exact ih hschemas

theorem checkEachField_eq {call : Schema → Option (Except SchemaError Unit)} {fields : List Field}
    (h : ∀ field ∈ fields, call field.schema = some field.schema.check) (record : String)
    (seen : List String) :
    checkEachField call record seen fields = some (checkFields record seen fields) := by
  induction fields generalizing seen with
  | nil => rfl
  | cons field fields ih =>
    obtain ⟨hfield, hfields⟩ := List.forall_mem_cons.mp h
    rw [checkEachField, checkFields]
    split
    · rfl
    · rw [hfield]
      cases field.schema.check with
      | error e => rfl
      | ok _ => exact ih hfields _

/-- The check gives the right answer if it does so for all lighter schemas. -/
theorem checkBody_eq {call : Schema → Option (Except SchemaError Unit)} (schema : Schema)
    (h : ∀ part, part.weight < schema.weight → call part = some part.check) :
    checkBody call schema = some schema.check := by
  cases schema with
  | record header fields =>
    exact checkEachField_eq (fun field hmem => h _ (weight_lt_of_mem_fields hmem)) _ []
  | union members => exact checkEach_eq fun member hmem => h _ (weight_lt_of_mem_members hmem)
  | array items => exact h items (by simp [weight])
  | map values => exact h values (by simp [weight])
  | enum header symbols => rfl
  | primitive type => rfl
  | named name => rfl
  | unknown value => rfl

/-! ### Names -/

/-- Collects the declared and the referenced names of schemas. -/
def namesOfEach (call : Schema → Option (List String × List String)) :
    List Schema → Option (List String × List String)
  | [] => some ([], [])
  | schema :: schemas => do
    let first ← call schema
    let others ← namesOfEach call schemas
    some (first.1 ++ others.1, first.2 ++ others.2)

/-- The declared and the referenced names of a schema below a namespace, with those of its parts as
a parameter. -/
def namesBody (call : Option String × Schema → Option (List String × List String)) :
    Option String × Schema → Option (List String × List String)
  | (outer, .record header fields) => do
    let inner ← namesOfEach (fun schema => call (header.scopeIn outer, schema))
      (fields.map FieldOf.schema)
    some (header.declares outer ++ inner.1, inner.2)
  | (outer, .enum header _) => some (header.declares outer, [])
  | (outer, .union members) => namesOfEach (fun schema => call (outer, schema)) members
  | (outer, .array items) => call (outer, items)
  | (outer, .map values) => call (outer, values)
  | (_, .named name) => some ([], [name])
  | (_, .primitive _) => some ([], [])
  | (_, .unknown _) => some ([], [])

/-- The declared and the referenced names of a schema below a namespace. -/
def names (outer : Option String) (schema : Schema) : List String × List String :=
  (schema.declaredIn outer, schema.references)

theorem namesOfEach_eq {call : Schema → Option (List String × List String)} {outer : Option String}
    {schemas : List Schema} (h : ∀ schema ∈ schemas, call schema = some (schema.names outer)) :
    namesOfEach call schemas = some (listDeclaredIn outer schemas, listReferences schemas) := by
  induction schemas with
  | nil => rfl
  | cons schema schemas ih =>
    obtain ⟨hschema, hschemas⟩ := List.forall_mem_cons.mp h
    rw [namesOfEach, hschema, ih hschemas]
    rfl

/-- The walk over names gives the right answer if it does so for all lighter schemas. -/
theorem namesBody_eq {call : Option String × Schema → Option (List String × List String)}
    (outer : Option String) (schema : Schema)
    (h : ∀ scope part, part.weight < schema.weight → call (scope, part) = some (part.names scope)) :
    namesBody call (outer, schema) = some (schema.names outer) := by
  cases schema with
  | record header fields =>
    have hfields : namesOfEach (fun schema => call (header.scopeIn outer, schema))
        (fields.map FieldOf.schema) = some (listDeclaredIn (header.scopeIn outer)
          (fields.map FieldOf.schema), listReferences (fields.map FieldOf.schema)) := by
      refine namesOfEach_eq fun schema hmem => ?_
      obtain ⟨field, hfield, rfl⟩ := List.mem_map.mp hmem
      exact h _ _ (weight_lt_of_mem_fields hfield)
    rw [namesBody, hfields, names, declaredIn, references, listDeclaredIn_eq_flatMap,
      listReferences_eq_flatMap, fieldsDeclaredIn_eq_flatMap, fieldsReferences_eq_flatMap,
      List.flatMap_map, List.flatMap_map]
    rfl
  | union members =>
    exact namesOfEach_eq fun member hmem => h outer _ (weight_lt_of_mem_members hmem)
  | array items => exact h outer items (by simp [weight])
  | map values => exact h outer values (by simp [weight])
  | enum header symbols => rfl
  | primitive type => rfl
  | named name => rfl
  | unknown value => rfl

/-! ### Type expressions -/

/-- Runs over a list from left to right and hands on the declarations. -/
def resolveEach {α : Type} (call : α → List Declaration → Option (String × List Declaration)) :
    List α → List Declaration → Option (List String × List Declaration)
  | [], out => some ([], out)
  | a :: rest, out => do
    let first ← call a out
    let others ← resolveEach call rest first.2
    some (first.1 :: others.1, others.2)

/-- The type expression of a schema in a context, and the declarations after it, with those of its
parts as a parameter. -/
def resolveBody
    (call : Schema × String × List Declaration → Option (String × List Declaration)) :
    Schema × String × List Declaration → Option (String × List Declaration)
  | (.union members, context, out) => do
    let resolved ← resolveEach (fun member out => call (member, context, out)) members out
    some (" | ".intercalate resolved.1.eraseDups, resolved.2)
  | (.array items, context, out) => do
    let item ← call (items, nestedName context "Item", out)
    some (item.1 ++ "[]", item.2)
  | (.map values, context, out) => do
    let value ← call (values, nestedName context "Value", out)
    some ("Record<string, " ++ value.1 ++ ">", value.2)
  | (.record header fields, context, out) => do
    let name := header.name.getD context
    let lines ← resolveEach (fun field out => do
      let type ← call (field.schema.withoutNull, propertyContext name field.name, out)
      some (propertyLine field type.1, type.2)) fields out
    some (name, lines.2 ++ [.interface name lines.1])
  | (.enum header symbols, context, out) =>
    let name := header.name.getD (nestedName context "Enum")
    some (name, out ++ [.enum name symbols])
  | (.primitive type, _, out) => some (type.typeScript, out)
  | (.named name, _, out) => some (name, out)
  | (.unknown _, _, out) => some ("any", out)

/-- A run gives the right answer if each step does so. The answer for a list is given by what it is
for no entries, and for one entry more. -/
theorem resolveEach_eq {α : Type}
    {call : α → List Declaration → Option (String × List Declaration)}
    (one : α → List Declaration → String × List Declaration)
    (all : List α → List Declaration → List String × List Declaration)
    (hnil : ∀ out, all [] out = ([], out))
    (hcons : ∀ a rest out, all (a :: rest) out =
      ((one a out).1 :: (all rest (one a out).2).1, (all rest (one a out).2).2))
    {l : List α} (h : ∀ a ∈ l, ∀ out, call a out = some (one a out)) (out : List Declaration) :
    resolveEach call l out = some (all l out) := by
  induction l generalizing out with
  | nil =>
    rw [hnil]
    rfl
  | cons a rest ih =>
    obtain ⟨ha, hrest⟩ := List.forall_mem_cons.mp h
    rw [resolveEach, ha, hcons]
    dsimp only [bind, Option.bind]
    rw [ih hrest]

/-- Resolution gives the right answer if it does so for all lighter schemas. -/
theorem resolveBody_eq
    {call : Schema × String × List Declaration → Option (String × List Declaration)}
    (schema : Schema) (context : String) (out : List Declaration)
    (h : ∀ part inner before, part.weight < schema.weight →
      call (part, inner, before) = some (part.resolve inner before)) :
    resolveBody call (schema, context, out) = some (schema.resolve context out) := by
  cases schema with
  | record header fields =>
    let name := header.name.getD context
    have hfields : resolveEach (fun field out => do
        let type ← call (field.schema.withoutNull, propertyContext name field.name, out)
        some (propertyLine field type.1, type.2)) fields out =
          some (properties fields name out) := by
      refine resolveEach_eq (property · name) (properties · name) (fun out => by rw [properties])
        (fun field fields out => by rw [properties]) (fun field hmem out => ?_) out
      have hlighter : field.schema.withoutNull.weight < (Schema.record header fields).weight :=
        Nat.lt_of_le_of_lt (weight_withoutNull_le field.schema) (weight_lt_of_mem_fields hmem)
      rw [h _ _ out hlighter, property]
      rfl
    rw [resolveBody, hfields, resolve]
    rfl
  | union members =>
    have hmembers : resolveEach (fun member out => call (member, context, out)) members out =
        some (resolveAll members context out) := by
      refine resolveEach_eq (resolve · context) (resolveAll · context)
        (fun out => by rw [resolveAll]) (fun member members out => by rw [resolveAll])
        (fun member hmem out => ?_) out
      exact h member context out (weight_lt_of_mem_members hmem)
    rw [resolveBody, hmembers, resolve]
    rfl
  | array items =>
    rw [resolveBody, h items _ out (by simp [weight]), resolve]
    rfl
  | map values =>
    rw [resolveBody, h values _ out (by simp [weight]), resolve]
    rfl
  | enum header symbols => rw [resolveBody, resolve]
  | primitive type => rw [resolveBody, resolve]
  | named name => rw [resolveBody, resolve]
  | unknown value => rw [resolveBody, resolve]

/-! ### All walks -/

/-- A limit on nested calls that is high enough for all walks over a schema: with at most `depth`
calls nested in the outermost one they give the answers that they give without a limit. -/
structure RunsWithin (schema : Schema) (depth : Nat) : Prop where
  check_eq : callsWithin checkBody depth schema = some schema.check
  names_eq : ∀ outer, callsWithin namesBody depth (outer, schema) =
    some (schema.declaredIn outer, schema.references)
  resolve_eq : ∀ context out, callsWithin resolveBody depth (schema, context, out) =
    some (schema.resolve context out)

theorem runsWithin_of_weight_le {schema : Schema} {depth : Nat} (h : schema.weight ≤ depth) :
    schema.RunsWithin depth where
  check_eq := callsWithin_eq_some check weight (fun _ part => checkBody_eq part) h
  names_eq outer := by
    refine callsWithin_eq_some (fun place : Option String × Schema => place.2.names place.1)
      (fun place => place.2.weight) (fun call (scope, part) hcall => ?_) h
    exact namesBody_eq scope part fun inner lighter => hcall (inner, lighter)
  resolve_eq context out := by
    refine callsWithin_eq_some
      (fun place : Schema × String × List Declaration => place.1.resolve place.2.1 place.2.2)
      (fun place => place.1.weight) (fun call (part, inner, before) hcall => ?_) h
    exact resolveBody_eq part inner before fun lighter inner before =>
      hcall (lighter, inner, before)

/-- Two arrays around each other are more than a limit of one nested call reaches. -/
example : callsWithin checkBody 1 (.array (.array (.named "Ping"))) = none := rfl

/-- **The weight of a schema.** A schema weighs no more than the value that it is decoded from
nests arrays and objects, and so at most 127 if it is read from a text. Its weight is a limit on
nested calls that is high enough for all walks over the schema, and so is every higher limit. -/
theorem weight_bounds_nesting_and_calls :
    (∀ (value : Json) (schema : Schema), ofJson value = .ok schema →
      schema.weight ≤ value.nesting) ∧
    (∀ (text : String) (schema : Schema), parse text = .ok schema →
      schema.weight ≤ 127 ∧ schema.RunsWithin 127) ∧
    ∀ (schema : Schema) (depth : Nat), schema.weight ≤ depth → schema.RunsWithin depth := by
  refine ⟨fun value schema => weight_le_nesting, fun text schema h => ?_,
    fun schema depth => runsWithin_of_weight_le⟩
  have hweight : schema.weight ≤ 127 := weight_le_levels h
  exact ⟨hweight, runsWithin_of_weight_le hweight⟩

end Schema

end AvroTypings
