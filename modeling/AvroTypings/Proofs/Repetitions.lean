import AvroTypings.Proofs.NamePaths
import AvroTypings.Proofs.Output
import AvroTypings.Proofs.RootExport
import AvroTypings.Proofs.Strictness
import AvroTypings.Proofs.Violations

/-!
# Repetitions in what is exported

The check of a schema walks over the schema as it stands and stops at the first symbol or field
that is repeated. The exports come from a walk that takes `null` out of optional fields and hoists
records and enums out of their places. This file compares the two through the sites of the schema:
the sites are the nodes that can repeat something, the check passes exactly if none of them does,
and every site is exported. So a strict run hands no repetition to its writer.

## Main definitions

* `Site.RepeatsNothing`: an enum with distinct symbols, or a record with distinct fields.

## Main results

* `Schema.check_eq_ok_iff`: the check of a schema, by its sites.
* `check_guards_declarations`: the check passes exactly if no export repeats anything.
-/

namespace AvroTypings

/-- The symbols of an enum are distinct, or the names of the fields of a record are. -/
def Site.RepeatsNothing (site : Site) : Prop :=
  match site.body with
  | .symbols symbols => symbols.Nodup
  | .fields fields => (fields.map FieldOf.name).Nodup

/-- Names are distinct exactly if none of them is a violation. -/
theorem nodup_iff_forall_not_violation {violation : String → SchemaError} {names : List String} :
    names.Nodup ↔ ∀ e, ¬ ∃ name, List.Duplicate name names ∧ e = violation name := by
  rw [List.nodup_iff_forall_not_duplicate]
  constructor
  · rintro h e ⟨name, hname, -⟩
    exact h name hname
  · exact fun h name hname => h _ ⟨name, hname, rfl⟩

/-- A site repeats nothing exactly if it has no violation as a node. -/
theorem Site.repeatsNothing_iff {site : Site} :
    site.RepeatsNothing ↔ ∀ e, ¬ site.schema.Repeats e := by
  obtain ⟨context, outer, header, body⟩ := site
  cases body with
  | symbols symbols => exact nodup_iff_forall_not_violation
  | fields fields => exact nodup_iff_forall_not_violation

namespace Schema

theorem isSite_of_repeats {node : Schema} {e : SchemaError} (h : node.Repeats e) :
    node.isSite = true := by
  cases node with
  | record header fields => rfl
  | enum header symbols => rfl
  | _ => cases h

/-- A schema passes the check exactly if none of its sites repeats anything. The context and the
namespace of the sites do not matter. -/
theorem check_eq_ok_iff {schema : Schema} (context : String) (outer : Option String) :
    schema.check = .ok () ↔ ∀ site ∈ schema.sitesIn context outer, site.RepeatsNothing := by
  rw [check_eq_ok_iff_nodes]
  constructor
  · intro h site hsite
    have hnode := (exists_mem_sitesIn_iff context outer).mp ⟨site, hsite, rfl⟩
    exact Site.repeatsNothing_iff.mpr (h site.schema hnode.1)
  · intro h node hoccurs e hrepeats
    obtain ⟨site, hsite, rfl⟩ :=
      (exists_mem_sitesIn_iff context outer).mpr ⟨hoccurs, isSite_of_repeats hrepeats⟩
    exact Site.repeatsNothing_iff.mp (h site hsite) e hrepeats

end Schema

/-- Every enum among the declarations has distinct symbols, and every record that one of them is
made from has distinct fields, exactly if no site repeats anything. -/
theorem repeatsNothing_iff_declarations {sites : List Site} :
    (∀ site ∈ sites, site.RepeatsNothing) ↔
      (∀ name symbols, .enum name symbols ∈ sites.map Site.declaration → symbols.Nodup) ∧
        ∀ site ∈ sites, ∀ fields, site.body = .fields fields →
          (fields.map FieldOf.name).Nodup := by
  constructor
  · intro h
    refine ⟨fun name symbols hmem => ?_, fun site hmem fields hbody => ?_⟩
    · obtain ⟨site, hsite, heq⟩ := List.mem_map.mp hmem
      have hsite := h site hsite
      unfold Site.declaration at heq
      unfold Site.RepeatsNothing at hsite
      split at heq
      · next hbody =>
        cases heq
        simpa only [hbody] using hsite
      · cases heq
    · simpa only [Site.RepeatsNothing, hbody] using h site hmem
  · rintro ⟨henums, hrecords⟩ site hmem
    unfold Site.RepeatsNothing
    split
    · next symbols hbody =>
      have hdeclaration : site.declaration = .enum site.name symbols := by
        simp only [Site.declaration, hbody]
      exact henums site.name symbols (hdeclaration ▸ List.mem_map_of_mem hmem)
    · next fields hbody => exact hrecords site hmem fields hbody

/-! ### Strict runs -/

/-- The documents of a strict run are sound by the time that they are handed to the writer. -/
theorem sound_of_prepare {settings : Settings} {loaded : Trace RunError (List Document)}
    {documents : List Document} (hstrict : settings.strict = true)
    (h : (prepare settings loaded).result = .ok documents) :
    ∀ d ∈ documents, Sound documents d := by
  obtain ⟨checked, -, h⟩ := Trace.result_andThen_eq_ok.mp h
  obtain ⟨_, hcheck, h⟩ := Trace.result_andThen_eq_ok.mp h
  cases h
  rw [hstrict] at hcheck
  exact inspectDocuments_strict_eq_ok_iff.mp hcheck

theorem Document.enum_mem_declarations_iff {d : Document} {name : String} {symbols : List String} :
    .enum name symbols ∈ d.declarations ↔
      .enum name symbols ∈ (d.schema.sites d.name).map Site.declaration := by
  simp [mem_declarations_iff]

theorem Document.exists_site_of_interface {d : Document} {name : String} {lines : List String}
    (h : .interface name lines ∈ d.declarations) :
    ∃ site ∈ d.schema.sites d.name, site.declaration = .interface name lines := by
  simpa [mem_declarations_iff] using h

/-- **The check guards what is exported.** Resolving a schema appends the declarations of its sites.
The schema passes the check if and only if every enum that is appended has distinct symbols and
every record that an interface is appended for has distinct fields. After a strict run that
succeeds, this holds of everything that was handed to the writer: no constant has a repeated key,
every interface is made from a record, and no record has two fields of one name. -/
theorem check_guards_declarations :
    (∀ (schema : Schema) (context : String),
      (∀ out, (schema.resolve context out).2 =
        out ++ (schema.sites context).map Site.declaration) ∧
      (schema.check = .ok () ↔
        (∀ name symbols, .enum name symbols ∈ (schema.resolve context []).2 → symbols.Nodup) ∧
        ∀ site ∈ schema.sites context, ∀ fields, site.body = .fields fields →
          (fields.map FieldOf.name).Nodup)) ∧
    (∀ (σ : Type) (settings : Settings) (loaded : Trace RunError (List Document))
        (writer : Writer σ) (state : σ) (path : Path), settings.strict = true →
      (runOn settings loaded writer state).1.result = .ok path →
      ∃ documents, loaded.result = .ok documents ∧
        (runOn settings loaded writer state).2 =
          (writer path (bundle settings.banner documents) state).2 ∧
        ∀ d ∈ documents,
          (∀ name symbols, .enum name symbols ∈ d.declarations → symbols.Nodup) ∧
          (∀ name lines, .interface name lines ∈ d.declarations →
            ∃ site ∈ d.schema.sites d.name, site.declaration = .interface name lines) ∧
          ∀ site ∈ d.schema.sites d.name, ∀ fields, site.body = .fields fields →
            (fields.map FieldOf.name).Nodup) := by
  refine ⟨fun schema context => ⟨fun out => ?_, ?_⟩, ?_⟩
  · rw [schema.hoists context none out]
    rfl
  · rw [schema.hoists context none [], Schema.check_eq_ok_iff context none,
      repeatsNothing_iff_declarations]
    rfl
  · intro σ settings loaded writer state path hstrict hpath
    obtain ⟨documents, hprepare, rfl, hstate⟩ := exists_prepared_of_runOn hpath
    refine ⟨documents, loaded_of_prepare hprepare, hstate, fun d hmem => ?_⟩
    have hcheck := (sound_of_prepare hstrict hprepare d hmem).1
    obtain ⟨henums, hrecords⟩ := repeatsNothing_iff_declarations.mp
      ((Schema.check_eq_ok_iff d.name none).mp hcheck)
    refine ⟨fun name symbols h => ?_, fun _ _ => Document.exists_site_of_interface, hrecords⟩
    exact henums name symbols (Document.enum_mem_declarations_iff.mp h)

end AvroTypings
