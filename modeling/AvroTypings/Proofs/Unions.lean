import AvroTypings.Proofs.PropertyLines
import AvroTypings.Proofs.Strictness
import AvroTypings.Proofs.Structure

/-!
# Unions

The expression of a union joins the expressions of its members and names each of them once, where it
first appears. Two members have the same expression if they read the same in TypeScript, as two
numeric types do, or two records that share a context because neither has a name. Hoisting makes no
such difference: every member hands on its declarations, whether or not its expression is new.

## Main definitions

* `FirstAppearances`: the distinct entries of a list, in the order in which they first appear.

## Main results

* `firstAppearances_eraseDups`: erasing repetitions leaves the first appearances.
* `Schema.expression_union_append`: members with known expressions leave the expression alone.
* `Schema.union_joins_first_appearances`: how a union resolves.
-/

namespace AvroTypings

/-- The entries of a list, each once, in the order in which they first appear. -/
structure FirstAppearances (texts all : List String) : Prop where
  nodup : texts.Nodup
  mem_iff : ∀ text, text ∈ texts ↔ text ∈ all
  ordered : texts.Pairwise fun a b => all.idxOf a < all.idxOf b

theorem firstAppearances_eraseDups (l : List String) : FirstAppearances l.eraseDups l := by
  have hordered := pairwise_idxOf_eraseDups_filter l fun _ => true
  rw [List.filter_eq_self.mpr fun _ _ => rfl] at hordered
  refine ⟨hordered.imp fun hlt heq => ?_, fun _ => List.mem_eraseDups, hordered⟩
  rw [heq] at hlt
  exact Nat.lt_irrefl _ hlt

/-- Entries that a list already has leave its first appearances alone. -/
theorem eraseDups_append_of_subset {l more : List String} (h : more ⊆ l) :
    (l ++ more).eraseDups = l.eraseDups := by
  have hnone : more.removeAll l = [] := by
    simpa [List.removeAll, List.filter_eq_nil_iff] using fun text htext => h htext
  rw [List.eraseDups_append, hnone, List.eraseDups_nil, List.append_nil]

namespace Schema

variable {members more : List Schema} {context : String}

/-- The expression of a schema, after any declarations. -/
theorem resolve_fst (schema : Schema) (context : String) (before : List Declaration) :
    (schema.resolve context before).1 = schema.expression context := by
  rw [schema.hoists context none before]

/-- Every member of a union hands on its declarations, in the order of the members. -/
theorem resolve_union_snd (members : List Schema) (context : String) (out : List Declaration) :
    ((Schema.union members).resolve context out).2 =
      out ++ members.flatMap fun member => (member.resolve context []).2 := by
  have hmember (member : Schema) :
      (member.resolve context []).2 = (member.sitesIn context none).map Site.declaration :=
    congrArg Prod.snd (member.hoists context none [])
  rw [(Schema.union members).hoists context none out, sitesIn, listSites_eq_flatMap,
    List.map_flatMap]
  simp only [hmember]

/-- Members whose expressions are among those of a union leave its expression alone. -/
theorem expression_union_append
    (h : ∀ member ∈ more, ∃ other ∈ members,
      other.expression context = member.expression context) :
    (Schema.union (members ++ more)).expression context =
      (Schema.union members).expression context := by
  have hsubset : more.map (·.expression context) ⊆ members.map (·.expression context) := by
    intro text htext
    obtain ⟨member, hmem, rfl⟩ := List.mem_map.mp htext
    exact List.mem_map.mpr (h member hmem)
  rw [expression_union, expression_union, List.map_append, eraseDups_append_of_subset hsubset]

/-- **Unions.** The expression of a union joins a list of texts with bars. The list has no
repetition, and its entries are the expressions of the members in the order of their first
appearance, whatever was collected before each of them. So further members with expressions that are
already there do not change it. The declarations of all members are appended, in the order of the
members. A union of one member resolves as the member does. -/
theorem union_joins_first_appearances (members : List Schema) (context : String) :
    (∃ texts, (∀ out, ((Schema.union members).resolve context out).1 = " | ".intercalate texts) ∧
      ∀ before : Schema → List Declaration, FirstAppearances texts
        (members.map fun member => (member.resolve context (before member)).1)) ∧
    (∀ more, (∀ member ∈ more, ∃ other ∈ members,
        (other.resolve context []).1 = (member.resolve context []).1) →
      ∀ out, ((Schema.union (members ++ more)).resolve context out).1 =
        ((Schema.union members).resolve context out).1) ∧
    (∀ out, ((Schema.union members).resolve context out).2 =
      out ++ members.flatMap fun member => (member.resolve context []).2) ∧
    ∀ member out, (Schema.union [member]).resolve context out = member.resolve context out := by
  refine ⟨⟨memberTexts members context, fun out => ?_, fun before => ?_⟩, fun more h out => ?_,
    resolve_union_snd members context, fun member => resolve_union_singleton member context⟩
  · rw [resolve_fst, expression_union_eq_join]
  · simp only [resolve_fst]
    exact firstAppearances_eraseDups _
  · rw [resolve_fst, resolve_fst]
    exact expression_union_append h

end Schema

end AvroTypings
