import AvroTypings.Proofs.RootExport
import AvroTypings.Proofs.Strictness
import AvroTypings.Proofs.Violations

/-!
# The names that the strict check rejects

The strict check knows the names that records and enums give themselves. A document exports more
names than these: the alias of its root is named after the document, and a record or an enum without
a name is named after its place. A reference to such a name is rejected although the name is
exported. This file shows that these are the only exports that a rejected reference can have the
name of.

## Main definitions

* `Document.MakesUp`: an export whose name no record or enum gives itself.

## Main results

* `Schema.check_ne_unresolved`: the check of a schema alone finds no references.
* `rejected_name_is_made_up`: what is exported under a rejected name.
-/

namespace AvroTypings

/-- An export that a document has made up the name of: the alias of its root, or the declaration of
a record or an enum that has no name and is named after its place. -/
inductive Document.MakesUp (d : Document) : Declaration → Prop
  | root : d.MakesUp (.typeAlias d.name d.resolved.1)
  | place {site : Site} (hmem : site ∈ d.schema.sites d.name) (hname : site.header.name = none) :
      d.MakesUp site.declaration

namespace Schema

/-! ### What the check of a schema finds -/

/-- The check of a schema alone finds repetitions and no references. -/
theorem check_ne_unresolved (schema : Schema) (name : String) :
    schema.check ≠ .error (.unresolved name) := by
  intro h
  obtain ⟨node, -, hrepeats⟩ := exists_repeats_of_check h
  unfold Repeats at hrepeats
  split at hrepeats
  · obtain ⟨_, -, heq⟩ := hrepeats
    cases heq
  · obtain ⟨_, -, heq⟩ := hrepeats
    cases heq
  · exact hrepeats

end Schema

/-! ### Rejected names -/

/-- A name is rejected only if no document declares it. -/
theorem not_declares_of_rejected {documents : List Document} {source name : String}
    (h : (inspectDocuments true documents).result = .error (.invalid source (.unresolved name))) :
    ∀ d ∈ documents, ¬ d.Declares name := by
  have hfail : (inspectDocuments true documents).result ≠ .ok () := by simp [h]
  obtain ⟨-, d, -, cause, -, -, hdefect, hresult⟩ := exists_first_defect hfail
  cases h.symm.trans hresult
  cases hdefect with
  | repetition hcheck => exact absurd hcheck (d.schema.check_ne_unresolved name)
  | reference _ hdangles _ => exact hdangles.2

/-- A record or an enum with a name of its own declares this name. -/
theorem Document.declares_own_name {d : Document} {site : Site} {name : String}
    (hmem : site ∈ d.schema.sites d.name) (hname : site.header.name = some name) :
    d.Declares name := by
  have hdeclaration : site.declaration.name = name := by
    rw [Site.name_declaration, Site.name_eq hname]
  exact ⟨site, hmem, hdeclaration ▸ hname, .inl hdeclaration.symm⟩

/-- **What a rejected name may stand for.** If the strict check rejects a reference, then no record
or enum of any document has given itself the name. Whatever a document exports under it has a name
that is made up. -/
theorem rejected_name_is_made_up {documents : List Document} {source name : String}
    (h : (inspectDocuments true documents).result = .error (.invalid source (.unresolved name))) :
    ∀ d ∈ documents,
      (∀ site ∈ d.schema.sites d.name, site.header.name ≠ some name) ∧
      ∀ declaration ∈ d.declarations, declaration.name = name → d.MakesUp declaration := by
  intro d hmem
  have hunnamed : ∀ site ∈ d.schema.sites d.name, site.header.name ≠ some name := by
    intro site hsite hname
    exact not_declares_of_rejected h d hmem (Document.declares_own_name hsite hname)
  refine ⟨hunnamed, fun declaration hdeclaration hname => ?_⟩
  obtain ⟨rfl, -⟩ | ⟨site, hsite, rfl⟩ := Document.mem_declarations_iff.mp hdeclaration
  · exact .root
  · cases hown : site.header.name with
    | none => exact .place hsite hown
    | some own =>
      rw [Site.name_declaration, Site.name_eq hown] at hname
      exact absurd (hname ▸ hown) (hunnamed site hsite)

/-- A record without a name, which is named after the field that it stands in, and a reference to
the name that it is exported under. -/
theorem rejected_name_of_nested_record :
    let home : Field := { name := "home", schema := .record {} [] }
    let back : Field := { name := "back", schema := .named "User_home" }
    let user : Document := ⟨"user.avsc", .record { name := some "User" } [home, back]⟩
    (inspectDocuments true [user]).result =
        .error (.invalid "user.avsc" (.unresolved "User_home")) ∧
      .interface "User_home" [] ∈ user.declarations ∧ user.MakesUp (.interface "User_home" []) := by
  intro home back user
  have hrejected : (inspectDocuments true [user]).result =
      .error (.invalid "user.avsc" (.unresolved "User_home")) := by rfl
  have hexported : .interface "User_home" [] ∈ user.declarations :=
    Document.mem_declarations_iff.mpr
      (.inr ⟨⟨"User_home", none, {}, .fields []⟩, List.mem_cons_self, rfl⟩)
  have hmadeUp := (rejected_name_is_made_up hrejected user List.mem_cons_self).2
  exact ⟨hrejected, hexported, hmadeUp _ hexported rfl⟩

/-- The alias of an array is exported under the name of its document, and yet a reference to it is
rejected. -/
theorem alias_of_array_is_rejected :
    let ids : Document := ⟨"ids.avsc", .array (.primitive .string)⟩
    let keys : Field := { name := "keys", schema := .named "ids" }
    let user : Document := ⟨"user.avsc", .record { name := some "User" } [keys]⟩
    (inspectDocuments true [ids, user]).result =
        .error (.invalid "user.avsc" (.unresolved "ids")) ∧
      ids.declarations = [.typeAlias "ids" "string[]"] ∧
      ¬ ∀ d ∈ [ids, user], ∀ declaration ∈ d.declarations, declaration.name ≠ "ids" := by
  intro ids keys user
  have hrejected : (inspectDocuments true [ids, user]).result =
        .error (.invalid "user.avsc" (.unresolved "ids")) := by rfl
  have hfree : ¬ ids.TakesName := fun ⟨_, hmem, _⟩ => List.not_mem_nil hmem
  have hname : ids.name = "ids" := by decide
  have hids : ids.declarations = [.typeAlias "ids" "string[]"] := by
    rw [Document.declarations_of_not_takesName hfree, Document.resolved_eq, hname]
    simp [ids, Schema.sites, Schema.sitesIn, Primitive.typeScript]
  refine ⟨hrejected, hids, fun h => ?_⟩
  exact h ids List.mem_cons_self _ (hids ▸ List.mem_cons_self) rfl

end AvroTypings
