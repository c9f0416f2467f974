import AvroTypings.Proofs.References

/-!
# Namespaces and declared names

A record or an enum lives in a namespace: the one that its dotted name spells out, else its own,
else the one that is in force in the record around it. A record puts its namespace in force for
everything below it, even a record without a name, which declares nothing itself. Unions, arrays
and maps hand on what they find. This file states these rules once, as relations, and proves that
the names a schema declares are those that its records and enums declare where they stand.

## Main definitions

* `Header.InForce`: the namespace in force at and below a record or enum.
* `Header.Declares`: the names that a record or enum declares where it stands.
* `Schema.StandsIn`: a node of a schema, with the namespace in force around it.
* `Schema.Declares`: the names that the nodes of a schema declare.

## Main results

* `Header.inForce_iff`: the namespace in force is the one that is computed.
* `Schema.mem_declared_iff`: the declared names of a schema are those of its nodes.
* `Schema.qualifiedName_mem_declared`: the qualified name of every node is among them.
-/

namespace AvroTypings

namespace Header

/-! ### Dotted names -/

theorem isDotted_eq_true_iff {name : String} : isDotted name = true ↔ '.' ∈ name.toList := by
  simp [isDotted]

theorem isDotted_eq_false_iff {name : String} : isDotted name = false ↔ '.' ∉ name.toList := by
  simp [isDotted]

theorem toList_dotted (before last : String) :
    (before ++ "." ++ last).toList = before.toList ++ '.' :: last.toList := by
  simp

/-- A dotted name splits at its last dot. -/
theorem exists_of_isDotted {name : String} (h : isDotted name = true) :
    ∃ before last, name = before ++ "." ++ last ∧ '.' ∉ last.toList := by
  have hmem : '.' ∈ name.toList.reverse := List.mem_reverse.mpr (isDotted_eq_true_iff.mp h)
  obtain ⟨last, before, hsplit, hlast⟩ := List.eq_append_cons_of_mem hmem
  refine ⟨String.ofList before.reverse, String.ofList last.reverse, ?_, by simpa using hlast⟩
  rw [← String.toList_inj, toList_dotted, ← List.reverse_reverse name.toList, hsplit]
  simp

/-- A scan from the right goes over all of a text without a dot. -/
theorem forall_mem_reverse_ne_dot {last : String} (h : '.' ∉ last.toList) :
    ∀ c ∈ last.toList.reverse, decide (c ≠ '.') = true := by
  intro c hc
  rw [decide_eq_true_eq]
  rintro rfl
  exact h (List.mem_reverse.mp hc)

theorem dotPrefix_append {before last : String} (h : '.' ∉ last.toList) :
    dotPrefix (before ++ "." ++ last) = before := by
  rw [dotPrefix, toList_dotted, List.reverse_append, List.reverse_cons, List.append_assoc,
    List.dropWhile_append_of_pos (forall_mem_reverse_ne_dot h)]
  simp

/-! ### Namespaces -/

/-- The namespace in force at and below a record or enum, where `outer` is in force around it: what
stands before the last dot of its name, else its own namespace unless it is empty, else `outer`. -/
inductive InForce (header : Header) (outer : Option String) : Option String → Prop
  | spelled {before last : String} (hname : header.name = some (before ++ "." ++ last))
      (hlast : '.' ∉ last.toList) : InForce header outer (some before)
  | own {scope : String} (hname : ∀ name, header.name = some name → '.' ∉ name.toList)
      (hscope : header.scope = some scope) (hne : scope ≠ "") : InForce header outer (some scope)
  | inherited (hname : ∀ name, header.name = some name → '.' ∉ name.toList)
      (hscope : ∀ scope, header.scope = some scope → scope = "") : InForce header outer outer

/-- The names that a record or enum declares where the namespace `outer` is in force: its own name
and, unless this is dotted, the name behind the namespace in force at the record or enum. -/
inductive Declares (header : Header) (outer : Option String) : String → Prop
  | short {name : String} (hname : header.name = some name) : Declares header outer name
  | qualified {name scope : String} (hname : header.name = some name) (hdot : '.' ∉ name.toList)
      (hscope : header.InForce outer (some scope)) : Declares header outer (scope ++ "." ++ name)

section

variable {header : Header} {outer : Option String}

theorem scopeIn_of_dotted {name : String} (hname : header.name = some name)
    (h : isDotted name = true) : header.scopeIn outer = some (dotPrefix name) := by
  simp [scopeIn, hname, h]

theorem scopeIn_of_not_dotted (h : ∀ name, header.name = some name → '.' ∉ name.toList) :
    header.scopeIn outer = header.scope?.or outer := by
  unfold scopeIn
  split
  · next name hname => rw [isDotted_eq_false_iff.mpr (h name hname), if_neg Bool.false_ne_true]
  · rfl

theorem scope?_of_ne {scope : String} (hscope : header.scope = some scope) (hne : scope ≠ "") :
    header.scope? = some scope := by
  simp [scope?, hscope, hne]

theorem scope?_eq_none (h : ∀ scope, header.scope = some scope → scope = "") :
    header.scope? = none := by
  simpa [scope?, Option.filter_eq_none_iff] using h

/-- The namespace in force at a record or enum whose name spells out none. -/
theorem inForce_of_not_dotted (h : ∀ name, header.name = some name → '.' ∉ name.toList) :
    header.InForce outer (header.scope?.or outer) := by
  by_cases hown : ∃ scope, header.scope = some scope ∧ scope ≠ ""
  · obtain ⟨scope, hscope, hne⟩ := hown
    rw [scope?_of_ne hscope hne, Option.some_or]
    exact .own h hscope hne
  · have hnone : ∀ scope, header.scope = some scope → scope = "" := fun scope hscope =>
      Decidable.not_not.mp fun hne => hown ⟨scope, hscope, hne⟩
    rw [scope?_eq_none hnone, Option.none_or]
    exact .inherited h hnone

theorem inForce_scopeIn (header : Header) (outer : Option String) :
    header.InForce outer (header.scopeIn outer) := by
  by_cases hdotted : ∃ name, header.name = some name ∧ isDotted name = true
  · obtain ⟨name, hname, h⟩ := hdotted
    obtain ⟨before, last, rfl, hlast⟩ := exists_of_isDotted h
    rw [scopeIn_of_dotted hname h, dotPrefix_append hlast]
    exact .spelled hname hlast
  · have hplain : ∀ name, header.name = some name → '.' ∉ name.toList := by
      intro name hname hdot
      exact hdotted ⟨name, hname, isDotted_eq_true_iff.mpr hdot⟩
    rw [scopeIn_of_not_dotted hplain]
    exact inForce_of_not_dotted hplain

/-- There is one namespace in force at a record or enum, and it is the one that is computed. -/
theorem inForce_iff {scope : Option String} :
    header.InForce outer scope ↔ header.scopeIn outer = scope := by
  constructor
  · rintro (⟨hname, hlast⟩ | ⟨hplain, hscope, hne⟩ | ⟨hplain, hnone⟩)
    · rw [scopeIn_of_dotted hname (isDotted_eq_true_iff.mpr (by simp)), dotPrefix_append hlast]
    · rw [scopeIn_of_not_dotted hplain, scope?_of_ne hscope hne, Option.some_or]
    · rw [scopeIn_of_not_dotted hplain, scope?_eq_none hnone, Option.none_or]
  · rintro rfl
    exact inForce_scopeIn header outer

theorem declares_of_name {own name : String} (hown : header.name = some own) :
    header.Declares outer name ↔ name = own ∨ isDotted own = false ∧
      ∃ scope, header.scopeIn outer = some scope ∧ name = scope ++ "." ++ own := by
  constructor
  · rintro (hname | ⟨hname, hdot, hscope⟩)
    · exact .inl (Option.some.inj (hname.symm.trans hown))
    · cases hname.symm.trans hown
      exact .inr ⟨isDotted_eq_false_iff.mpr hdot, _, inForce_iff.mp hscope, rfl⟩
  · rintro (rfl | ⟨hdot, scope, hscope, rfl⟩)
    · exact .short hown
    · exact .qualified hown (isDotted_eq_false_iff.mp hdot) (inForce_iff.mpr hscope)

/-- The names that are computed for a record or enum are those that it declares. -/
theorem mem_declares_iff {name : String} :
    name ∈ header.declares outer ↔ header.Declares outer name := by
  unfold declares
  cases hown : header.name with
  | none =>
    refine iff_of_false List.not_mem_nil ?_
    rintro (hname | ⟨hname, -, -⟩) <;> cases hname.symm.trans hown
  | some own =>
    rw [declares_of_name hown]
    cases header.scopeIn outer with
    | none => simp
    | some scope => cases hdotted : isDotted own <;> simp [hdotted]

/-- The qualified name of a record or enum is one of the names that it declares, whatever namespace
is in force around it. -/
theorem declares_qualifiedName {name : String} (h : header.qualifiedName = some name) :
    header.Declares outer name := by
  unfold qualifiedName at h
  obtain ⟨own, hown, h⟩ := Option.map_eq_some_iff.mp h
  split at h
  · next scope hscope =>
    split at h
    · exact h ▸ .short hown
    · next hdotted =>
      have hplain : '.' ∉ own.toList := by simpa [isDotted_eq_true_iff] using hdotted
      refine h ▸ .qualified hown hplain (inForce_iff.mpr ?_)
      rw [scopeIn_of_not_dotted, hscope, Option.some_or]
      intro name hname
      cases hname.symm.trans hown
      exact hplain
  · exact h ▸ .short hown

end

end Header

namespace Schema

/-! ### Nodes in their namespaces -/

/-- What a record or an enum says about itself. -/
def header? : Schema → Option Header
  | .record header _ => some header
  | .enum header _ => some header
  | _ => none

/-- A node stands in a schema: `outer` is the namespace in force around the schema, and `around` the
one in force around the node. Only the records in between change it. -/
inductive StandsIn (node : Schema) (around : Option String) : Option String → Schema → Prop
  | here : StandsIn node around around node
  | union {outer : Option String} {members : List Schema} {member : Schema}
      (hmem : member ∈ members) (h : StandsIn node around outer member) :
      StandsIn node around outer (.union members)
  | array {outer : Option String} {items : Schema} (h : StandsIn node around outer items) :
      StandsIn node around outer (.array items)
  | map {outer : Option String} {values : Schema} (h : StandsIn node around outer values) :
      StandsIn node around outer (.map values)
  | record {outer inner : Option String} {header : Header} {fields : List Field} {field : Field}
      (hmem : field ∈ fields) (hinner : header.InForce outer inner)
      (h : StandsIn node around inner field.schema) :
      StandsIn node around outer (.record header fields)

/-- A node of the schema, which itself stands in no namespace, declares the name. -/
def Declares (schema : Schema) (name : String) : Prop :=
  ∃ node around header, StandsIn node around none schema ∧ node.header? = some header ∧
    header.Declares around name

/-- Every node stands in some namespace. -/
theorem exists_standsIn {node schema : Schema} (h : Occurs node schema) (outer : Option String) :
    ∃ around, StandsIn node around outer schema := by
  induction h generalizing outer with
  | self => exact ⟨outer, .here⟩
  | union hmem _ ih =>
    obtain ⟨around, h⟩ := ih outer
    exact ⟨around, .union hmem h⟩
  | array _ ih =>
    obtain ⟨around, h⟩ := ih outer
    exact ⟨around, .array h⟩
  | map _ ih =>
    obtain ⟨around, h⟩ := ih outer
    exact ⟨around, .map h⟩
  | @record header _ _ hmem _ ih =>
    obtain ⟨around, h⟩ := ih (header.scopeIn outer)
    exact ⟨around, .record hmem (header.inForce_scopeIn outer) h⟩

theorem mem_declaredIn_of_header {node : Schema} {header : Header} {outer : Option String}
    {name : String} (hnode : node.header? = some header) (h : name ∈ header.declares outer) :
    name ∈ node.declaredIn outer := by
  cases node with
  | record own fields =>
    cases hnode
    exact List.mem_append_left _ h
  | enum own symbols =>
    cases hnode
    exact h
  | _ => cases hnode

/-- What a node declares is declared in every schema that it stands in. -/
theorem mem_declaredIn_of_standsIn {node schema : Schema} {header : Header}
    {around outer : Option String} {name : String} (h : StandsIn node around outer schema)
    (hnode : node.header? = some header) (hname : name ∈ header.declares around) :
    name ∈ schema.declaredIn outer := by
  induction h with
  | here => exact mem_declaredIn_of_header hnode hname
  | union hmem _ ih =>
    rw [declaredIn, listDeclaredIn_eq_flatMap]
    exact List.mem_flatMap.mpr ⟨_, hmem, ih⟩
  | array _ ih => exact ih
  | map _ ih => exact ih
  | record hmem hinner _ ih =>
    rw [declaredIn, fieldsDeclaredIn_eq_flatMap, Header.inForce_iff.mp hinner]
    exact List.mem_append_right _ (List.mem_flatMap.mpr ⟨_, hmem, ih⟩)

/-- What is declared in a schema is declared by one of its nodes. -/
theorem exists_standsIn_of_mem_declaredIn {schema : Schema} {outer : Option String} {name : String}
    (h : name ∈ schema.declaredIn outer) :
    ∃ node around header, StandsIn node around outer schema ∧ node.header? = some header ∧
      name ∈ header.declares around := by
  induction schema generalizing outer with
  | primitive type => cases h
  | named name => cases h
  | unknown value => cases h
  | enum header symbols => exact ⟨_, outer, header, .here, rfl, h⟩
  | array items ih =>
    obtain ⟨node, around, header, hstands, hnode⟩ := ih h
    exact ⟨node, around, header, .array hstands, hnode⟩
  | map values ih =>
    obtain ⟨node, around, header, hstands, hnode⟩ := ih h
    exact ⟨node, around, header, .map hstands, hnode⟩
  | union members ih =>
    rw [declaredIn, listDeclaredIn_eq_flatMap] at h
    obtain ⟨member, hmem, h⟩ := List.mem_flatMap.mp h
    obtain ⟨node, around, header, hstands, hnode⟩ := ih member hmem h
    exact ⟨node, around, header, .union hmem hstands, hnode⟩
  | record header fields ih _ =>
    rw [declaredIn, fieldsDeclaredIn_eq_flatMap] at h
    rcases List.mem_append.mp h with h | h
    · exact ⟨_, outer, header, .here, rfl, h⟩
    · obtain ⟨field, hmem, h⟩ := List.mem_flatMap.mp h
      obtain ⟨node, around, inner, hstands, hnode⟩ := ih field hmem h
      exact ⟨node, around, inner, .record hmem (header.inForce_scopeIn outer) hstands, hnode⟩

/-- The declared names of a schema are those that its nodes declare where they stand. -/
theorem mem_declared_iff {schema : Schema} {name : String} :
    name ∈ schema.declared ↔ schema.Declares name := by
  constructor
  · intro h
    obtain ⟨node, around, header, hstands, hnode, hname⟩ := exists_standsIn_of_mem_declaredIn h
    exact ⟨node, around, header, hstands, hnode, Header.mem_declares_iff.mp hname⟩
  · rintro ⟨node, around, header, hstands, hnode, hname⟩
    exact mem_declaredIn_of_standsIn hstands hnode (Header.mem_declares_iff.mpr hname)

/-- The qualified name of every record and enum of a schema is declared. -/
theorem qualifiedName_mem_declared {schema node : Schema} {header : Header} {name : String}
    (hnode : Occurs node schema) (hheader : node.header? = some header)
    (hname : header.qualifiedName = some name) : name ∈ schema.declared := by
  obtain ⟨around, hstands⟩ := exists_standsIn hnode none
  exact mem_declared_iff.mpr
    ⟨node, around, header, hstands, hheader, Header.declares_qualifiedName hname⟩

end Schema

end AvroTypings
