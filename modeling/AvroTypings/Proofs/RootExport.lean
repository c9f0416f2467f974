import AvroTypings.Document
import AvroTypings.Proofs.Hoisting

/-!
# The export of a document's name

A document always exports its name. If a record or an enum of its schema is hoisted under that name
then this declaration is the export, wherever in the schema the record or enum stands; an alias for
the root is made only if there is none. So the export stands for the root type unless the name was
taken by a record or an enum below the root, which is possible in a document that is named after
its source.

## Main definitions

* `Document.NamesRoot`: the export of the document's name stands for the root type.

## Main results

* `Document.resolved_eq`: the root expression and the hoisted declarations, by sites.
* `Document.mem_declarations_iff`: where the exports of a document come from.
* `Document.namesRoot_iff`: when the export stands for the root type.
-/

namespace AvroTypings

/-- A declaration that is made from a record or an enum is no alias. -/
theorem Site.declaration_ne_typeAlias (site : Site) (name target : String) :
    site.declaration ≠ .typeAlias name target := by
  unfold declaration
  split <;> nofun

namespace Document

variable (d : Document)

/-- The export of a document's name stands for the root type: it is an alias of the root expression,
or a hoisted declaration that the root expression refers to. -/
def NamesRoot : Prop :=
  .typeAlias d.name d.resolved.1 ∈ d.declarations ∨
    d.resolved.1 = d.name ∧
      ∃ declaration ∈ d.declarations, declaration ∈ d.resolved.2 ∧ declaration.name = d.name

/-- A record or an enum of the schema is declared under the name of the document. -/
def TakesName : Prop := ∃ site ∈ d.schema.sites d.name, site.name = d.name

/-! ### The declarations of a document -/

theorem resolved_eq :
    d.resolved = (d.schema.expression d.name, (d.schema.sites d.name).map Site.declaration) :=
  d.schema.hoists d.name none []

variable {d}

theorem any_name_eq_iff :
    (d.resolved.2.any fun declaration => declaration.name == d.name) = true ↔ d.TakesName := by
  simp [resolved_eq, TakesName]

theorem declarations_of_takesName (h : d.TakesName) : d.declarations = d.resolved.2 := by
  rw [declarations, if_pos (any_name_eq_iff.mpr h)]

theorem declarations_of_not_takesName (h : ¬ d.TakesName) :
    d.declarations = d.resolved.2 ++ [.typeAlias d.name d.resolved.1] := by
  rw [declarations, if_neg (mt any_name_eq_iff.mp h)]

/-- The hoisted declaration that has the name of the document. -/
theorem TakesName.exists_hoisted (h : d.TakesName) :
    ∃ declaration ∈ d.resolved.2, declaration.name = d.name := by
  obtain ⟨site, hsite, hname⟩ := h
  refine ⟨site.declaration, ?_, (Site.name_declaration site).trans hname⟩
  rw [resolved_eq]
  exact List.mem_map_of_mem hsite

theorem typeAlias_notMem_hoisted (name target : String) :
    .typeAlias name target ∉ d.resolved.2 := by
  rw [resolved_eq]
  intro hmem
  obtain ⟨site, -, hsite⟩ := List.mem_map.mp hmem
  exact site.declaration_ne_typeAlias name target hsite

/-- An export of a document is the alias of its name, and then nothing was hoisted under that name,
or it is hoisted from a site of its schema. -/
theorem mem_declarations_iff {declaration : Declaration} :
    declaration ∈ d.declarations ↔
      (declaration = .typeAlias d.name d.resolved.1 ∧ ¬ d.TakesName) ∨
        ∃ site ∈ d.schema.sites d.name, site.declaration = declaration := by
  by_cases h : d.TakesName
  · simp [declarations_of_takesName h, resolved_eq, h]
  · simp [declarations_of_not_takesName h, resolved_eq, h, or_comm]

/-! ### The root -/

theorem namesRoot_of_not_takesName (h : ¬ d.TakesName) : d.NamesRoot := by
  refine .inl ?_
  rw [declarations_of_not_takesName h]
  exact List.mem_append_right _ List.mem_cons_self

theorem namesRoot_iff_of_takesName (h : d.TakesName) : d.NamesRoot ↔ d.resolved.1 = d.name := by
  have hdeclarations := declarations_of_takesName h
  constructor
  · rintro (halias | ⟨hroot, -⟩)
    · rw [hdeclarations] at halias
      exact absurd halias (typeAlias_notMem_hoisted _ _)
    · exact hroot
  · intro hroot
    obtain ⟨declaration, hmem, hname⟩ := h.exists_hoisted
    exact .inr ⟨hroot, declaration, hdeclarations ▸ hmem, hmem, hname⟩

theorem namesRoot_iff : d.NamesRoot ↔ d.resolved.1 = d.name ∨ ¬ d.TakesName := by
  by_cases h : d.TakesName
  · simp only [namesRoot_iff_of_takesName h, h, not_true_eq_false, or_false]
  · exact iff_of_true (namesRoot_of_not_takesName h) (.inr h)

/-- A record at the root is declared under the name of the document. -/
theorem resolved_eq_name_of_isRecord (h : d.schema.isRecord = true) : d.resolved.1 = d.name := by
  obtain ⟨source, schema⟩ := d
  match schema, h with
  | .record header fields, _ =>
    rw [resolved_eq, Schema.expression_record]
    cases hname : header.name <;> simp [name, Schema.ownName, hname]

/-- An enum at the root is declared under the name of the document if it has a name of its own.
Otherwise it is declared under a longer one, and there is nothing else that could take the name. -/
theorem resolved_eq_name_or_of_isEnum (h : d.schema.isEnum = true) :
    d.resolved.1 = d.name ∨ ¬ d.TakesName := by
  obtain ⟨source, schema⟩ := d
  match schema, h with
  | .enum header symbols, _ =>
    cases hname : header.name with
    | some own =>
      left
      rw [resolved_eq, Schema.expression_enum]
      simp [name, Schema.ownName, hname]
    | none =>
      right
      rintro ⟨site, hsite, hsame⟩
      cases List.mem_singleton.mp hsite
      simp [Site.name, hname, nestedName] at hsame

/-- **The export of a document's name.** A document always exports its name. The export stands for
the root type if and only if the root expression is that name itself or no record or enum of the
schema is declared under it, and in particular if the root is a record or an enum. -/
theorem exports_name_and_namesRoot_iff (d : Document) :
    (∃ declaration ∈ d.declarations, declaration.name = d.name) ∧
    (d.NamesRoot ↔ d.resolved.1 = d.name ∨
      ∀ site ∈ d.schema.sites d.name, site.declaration.name ≠ d.name) ∧
    (d.schema.isRecord = true ∨ d.schema.isEnum = true → d.NamesRoot) := by
  refine ⟨?_, ?_, ?_⟩
  · by_cases h : d.TakesName
    · rw [declarations_of_takesName h]
      exact h.exists_hoisted
    · rw [declarations_of_not_takesName h]
      exact ⟨_, List.mem_append_right _ List.mem_cons_self, rfl⟩
  · simp [namesRoot_iff, TakesName]
  · rintro (hrecord | henum)
    · exact namesRoot_iff.mpr (.inl (resolved_eq_name_of_isRecord hrecord))
    · exact namesRoot_iff.mpr (resolved_eq_name_or_of_isEnum henum)

/-- An array that is named after a record among its items: the name stands for the record, and
nothing stands for the array. -/
theorem array_named_after_items_hides_root :
    let d : Document := ⟨"Ping.avsc", .array (.record { name := some "Ping" } [])⟩
    d.name = "Ping" ∧ d.resolved.1 = "Ping[]" ∧ d.declarations = [.interface "Ping" []] ∧
      ¬ d.NamesRoot := by
  intro d
  have hname : d.name = "Ping" := by decide
  have hroot : d.resolved.1 = "Ping[]" := by
    simp [d, resolved_eq]
  have htakes : d.TakesName := by
    rw [TakesName, hname]
    exact ⟨_, List.mem_cons_self, rfl⟩
  have hhoisted : d.resolved.2 = [.interface "Ping" []] := by
    simp [d, resolved_eq, Schema.sites, Schema.sitesIn, Schema.fieldSites, Site.declaration,
      Site.name]
  refine ⟨hname, hroot, (declarations_of_takesName htakes).trans hhoisted, ?_⟩
  rw [namesRoot_iff_of_takesName htakes, hroot, hname]
  decide

end Document

end AvroTypings
