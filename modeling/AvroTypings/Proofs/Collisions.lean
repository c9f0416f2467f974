import AvroTypings.Proofs.RootExport
import Mathlib.Data.List.Count
import Mathlib.Data.List.Nodup

/-!
# Collisions among the exports of a document

Two exports of a document may have the same name: the names of records and enums are explicit or
made from their contexts, and nothing keeps them apart. Such a collision is reported and otherwise
left alone. The report comes from a walk over the exports that carries the names seen so far. This
file says what it holds by the positions of the exports, and by how often each name is exported.

## Main definitions

* `Document.namesakes`: the exports that have the name of an earlier one.

## Main results

* `Document.repeatedNames_eq_map_filter`: the walk finds the names at those positions.
* `Document.count_repeatedNames`: the walk finds every name but for its first appearance.
* `Document.warnings_report_collisions`: what is reported, and what is exported all the same.
-/

namespace AvroTypings.Document

/-- The declarations of a list that have the name of an earlier one, each with its position. -/
def namesakes (declarations : List Declaration) : List (Declaration × Nat) :=
  declarations.zipIdx.filter fun (declaration, index) =>
    declaration.name ∈ (declarations.take index).map Declaration.name

/-! ### The walk over the names -/

/-- Only the membership of a name among those seen matters to the walk. -/
theorem repeatedNames_congr {seen seen' : List String}
    (h : ∀ name, name ∈ seen ↔ name ∈ seen') (names : List String) :
    repeatedNames seen names = repeatedNames seen' names := by
  induction names generalizing seen seen' with
  | nil => rfl
  | cons name names ih =>
    have hcons : ∀ other, other ∈ name :: seen ↔ other ∈ name :: seen' := by
      simp [h]
    simp only [repeatedNames, List.contains_iff_mem, h name, ih h, ih hcons]

/-- The walk takes a name that was seen, and goes on with the name among the earlier ones. -/
theorem repeatedNames_cons (earlier : List String) (name : String) (names : List String) :
    repeatedNames earlier (name :: names) =
      (if name ∈ earlier then [name] else []) ++ repeatedNames (earlier ++ [name]) names := by
  by_cases hmem : name ∈ earlier
  · have hsame : ∀ other, other ∈ earlier ↔ other ∈ earlier ++ [name] := by
      intro other
      rw [List.mem_append, List.mem_singleton]
      exact ⟨.inl, fun hother => hother.elim id fun heq => heq ▸ hmem⟩
    simp [repeatedNames, hmem, repeatedNames_congr hsame]
  · have hsame : ∀ other, other ∈ name :: earlier ↔ other ∈ earlier ++ [name] := by
      simp [or_comm]
    simp [repeatedNames, hmem, repeatedNames_congr hsame]

/-- The walk takes the names at those positions whose name is among the earlier ones or stands at a
position further ahead. -/
theorem repeatedNames_eq_map_filter (earlier : List String) (declarations : List Declaration) :
    repeatedNames earlier (declarations.map Declaration.name) =
      (declarations.zipIdx.filter fun (declaration, index) =>
        declaration.name ∈ earlier ++ (declarations.take index).map Declaration.name).map
          fun (declaration, _) => declaration.name := by
  induction declarations generalizing earlier with
  | nil => rfl
  | cons declaration declarations ih =>
    rw [List.map_cons, repeatedNames_cons, ih, List.zipIdx_cons, Nat.zero_add, List.zipIdx_succ]
    by_cases hmem : declaration.name ∈ earlier <;>
      simp [hmem, List.filter_map, Function.comp_def]

/-- The walk takes a name as often as it appears, but for its first appearance if it is none of the
earlier ones. -/
theorem count_repeatedNames (name : String) (earlier names : List String) :
    (repeatedNames earlier names).count name =
      if name ∈ earlier then names.count name else names.count name - 1 := by
  induction names generalizing earlier with
  | nil => simp [repeatedNames]
  | cons first names ih =>
    rw [repeatedNames_cons, List.count_append, ih, List.count_cons]
    by_cases hfirst : first = name
    · subst hfirst
      by_cases hmem : first ∈ earlier <;> simp [hmem, Nat.add_comm]
    · have hother : name ∈ earlier ++ [first] ↔ name ∈ earlier := by
        simp [Ne.symm hfirst]
      by_cases hmem : first ∈ earlier <;> simp [hmem, hfirst, hother]

/-! ### Warnings -/

variable {d : Document}

/-- The exports that are warned about, in order. -/
theorem warnings_eq_map_namesakes :
    d.warnings = (namesakes d.declarations).map fun (declaration, _) =>
      .repeated d.source declaration.name := by
  rw [warnings, collisions, repeatedNames_eq_map_filter, List.map_map]
  rfl

theorem count_collisions (name : String) :
    d.collisions.count name = (d.declarations.map Declaration.name).count name - 1 :=
  (count_repeatedNames name [] _).trans (if_neg List.not_mem_nil)

/-- A name that is exported `k` times is warned about `k - 1` times. -/
theorem count_warnings (name : String) :
    d.warnings.count (.repeated d.source name) =
      (d.declarations.map Declaration.name).count name - 1 := by
  have hinjective : Function.Injective (Event.repeated d.source) := by
    intro a b h
    exact (Event.repeated.inj h).2
  rw [warnings, List.count_map_of_injective _ _ hinjective, count_collisions]

theorem warnings_eq_nil_iff :
    d.warnings = [] ↔ (d.declarations.map Declaration.name).Nodup := by
  rw [List.nodup_iff_count_le_one, warnings, List.map_eq_nil_iff, List.eq_nil_iff_forall_not_mem]
  refine forall_congr' fun name => ?_
  rw [← List.count_eq_zero, count_collisions, Nat.sub_eq_zero_iff_le]

/-- An alias is made only for a name that no other export has. -/
theorem count_name_of_typeAlias_mem {name target : String}
    (h : .typeAlias name target ∈ d.declarations) :
    (d.declarations.map Declaration.name).count name = 1 := by
  rcases mem_declarations_iff.mp h with ⟨heq, hfree⟩ | ⟨site, -, hsite⟩
  · obtain ⟨rfl, -⟩ := Declaration.typeAlias.inj heq
    have hhoisted : d.name ∉ d.resolved.2.map Declaration.name := by
      intro hmem
      obtain ⟨declaration, hmem, hname⟩ := List.mem_map.mp hmem
      refine hfree (any_name_eq_iff.mp (List.any_eq_true.mpr ⟨declaration, hmem, ?_⟩))
      exact beq_iff_eq.mpr hname
    rw [declarations_of_not_takesName hfree, List.map_append, List.count_append,
      List.count_eq_zero.mpr hhoisted]
    simp [Declaration.name]
  · exact absurd hsite (site.declaration_ne_typeAlias name target)

/-- **Collisions are reported and kept.** The warnings of a document are, in order, one for each
position of its exports whose name already stands at an earlier position. So a name that is exported
`k` times is warned about `k - 1` times, there is no warning if and only if all names are distinct,
and no warning is about an alias. The exports are those of all records and enums of the schema,
whatever their names, and behind them the alias of the root if none of these has the name of the
document. -/
theorem warnings_report_collisions (d : Document) :
    d.warnings = (namesakes d.declarations).map (fun (declaration, _) =>
      .repeated d.source declaration.name) ∧
    (∀ name, d.warnings.count (.repeated d.source name) =
      (d.declarations.map Declaration.name).count name - 1) ∧
    (d.warnings = [] ↔ (d.declarations.map Declaration.name).Nodup) ∧
    (∀ name target, .typeAlias name target ∈ d.declarations →
      .repeated d.source name ∉ d.warnings) ∧
    (d.TakesName → d.declarations = (d.schema.sites d.name).map Site.declaration) ∧
    (¬ d.TakesName → d.declarations = (d.schema.sites d.name).map Site.declaration ++
      [.typeAlias d.name (d.schema.expression d.name)]) := by
  refine ⟨warnings_eq_map_namesakes, count_warnings, warnings_eq_nil_iff, ?_, ?_, ?_⟩
  · intro name target halias
    rw [← List.count_eq_zero, count_warnings, count_name_of_typeAlias_mem halias]
  · intro htaken
    rw [declarations_of_takesName htaken, resolved_eq]
  · intro hfree
    rw [declarations_of_not_takesName hfree, resolved_eq]

end AvroTypings.Document
