import AvroTypings.Proofs.References
import Mathlib.Data.List.Basic

/-!
# Strict and lenient runs

A strict run and a lenient run differ in the check of the documents only. The lenient check goes
through all documents and warns of every reference that dangles, that is, of every name that a
document refers to and no document declares. The strict check stops at the first document that
repeats a symbol or a field, or that has such a reference. So the two runs agree on documents
without a defect, and on all others the strict run leaves the writer alone.

What dangles is said here in terms of the sites of the schemas, and the order of the warnings in
terms of the place where a name first appears.

## Main definitions

* `Dangles`: a document refers to a name that no document declares.
* `DanglingNames`: the names that dangle in a document, in the order of their appearance.
* `Defect`: what the strict check finds in a document.

## Main results

* `inspectDocuments_lenient`: the lenient check succeeds and reports the dangling names.
* `inspectDocuments_strict_eq_ok_iff`: the strict check succeeds exactly on documents without a
  defect.
* `strict_run_agrees_or_stops`: how the strict run of documents compares with the lenient one.
-/

namespace AvroTypings

/-! ### Dangling references -/

/-- A document declares a name: the declaration of one of its records or enums answers it. -/
def Document.Declares (d : Document) (name : String) : Prop :=
  ∃ site ∈ d.schema.sites d.name, site.Answers name

/-- A document refers to a name that none of the documents declares. -/
def Dangles (documents : List Document) (d : Document) (name : String) : Prop :=
  Schema.Occurs (.named name) d.schema ∧ ∀ other ∈ documents, ¬ other.Declares name

/-- The number of references of a document before a name first appears. -/
def Document.firstAppearance (d : Document) (name : String) : Nat :=
  d.schema.references.idxOf name

/-- The names that dangle in a document, each once, in the order in which they first appear. -/
structure DanglingNames (documents : List Document) (d : Document) (names : List String) :
    Prop where
  mem_iff : ∀ name, name ∈ names ↔ Dangles documents d name
  ordered : names.Pairwise fun a b => d.firstAppearance a < d.firstAppearance b

/-- What is wrong with a document among others: a repetition in its schema or, if there is none, the
dangling name that appears first. -/
inductive Defect (documents : List Document) (d : Document) : SchemaError → Prop
  | repetition {cause : SchemaError} (hcheck : d.schema.check = .error cause) :
      Defect documents d cause
  | reference {name : String} (hcheck : d.schema.check = .ok ()) (hname : Dangles documents d name)
      (hfirst : ∀ other, Dangles documents d other →
        d.firstAppearance name ≤ d.firstAppearance other) :
      Defect documents d (.unresolved name)

/-- A document without repetitions and dangling references. -/
def Sound (documents : List Document) (d : Document) : Prop :=
  d.schema.check = .ok () ∧ ∀ name, ¬ Dangles documents d name

theorem Document.mem_declared_iff {d : Document} {name : String} :
    name ∈ d.schema.declared ↔ d.Declares name :=
  Schema.mem_declaredIn_iff d.name none

theorem not_mem_declaredBy_iff {documents : List Document} {name : String} :
    name ∉ declaredBy documents ↔ ∀ other ∈ documents, ¬ other.Declares name := by
  simp only [declaredBy, List.mem_flatMap, Document.mem_declared_iff, not_exists, not_and]

theorem dangles_iff {documents : List Document} {d : Document} {name : String} :
    Dangles documents d name ↔ name ∈ d.schema.references ∧ name ∉ declaredBy documents := by
  rw [Dangles, not_mem_declaredBy_iff, Schema.mem_references_iff]

/-- The missing names of a document are those that dangle in it. That they are not declared by the
document itself follows from the document being one of those that are asked. -/
theorem Document.mem_missing_iff {documents : List Document} {d : Document} {name : String}
    (hmem : d ∈ documents) :
    name ∈ d.missing (declaredBy documents) ↔ Dangles documents d name := by
  have hown : name ∈ d.schema.declared → name ∈ declaredBy documents := fun h =>
    List.mem_flatMap.mpr ⟨d, hmem, h⟩
  simp only [missing, Schema.unresolved, List.mem_filter, List.mem_eraseDups, List.contains_eq_mem,
    Bool.not_eq_true', decide_eq_false_iff_not, dangles_iff]
  constructor
  · rintro ⟨⟨href, -⟩, hdeclared⟩
    exact ⟨href, hdeclared⟩
  · rintro ⟨href, hdeclared⟩
    exact ⟨⟨href, fun h => hdeclared (hown h)⟩, hdeclared⟩

/-- Erasing repetitions from a part of a list leaves its elements in the order in which they first
appear in the whole list. -/
theorem pairwise_idxOf_eraseDups_filter (l : List String) (p : String → Bool) :
    (l.filter p).eraseDups.Pairwise fun a b => l.idxOf a < l.idxOf b := by
  -- `p` is arbitrary since erasing the repetitions of `first` filters the rest once more
  induction l generalizing p with
  | nil => simp
  | cons first l ih =>
    have later (q : String → Bool) (hq : q first = false) :
        (l.filter q).eraseDups.Pairwise fun a b => (first :: l).idxOf a < (first :: l).idxOf b := by
      have hne : ∀ a ∈ (l.filter q).eraseDups, first ≠ a := by
        rintro a ha rfl
        have := (List.mem_filter.mp (List.mem_eraseDups.mp ha)).2
        simp [hq] at this
      refine (ih q).imp_of_mem fun {a b} ha hb hlt => ?_
      rw [List.idxOf_cons_ne l (hne a ha), List.idxOf_cons_ne l (hne b hb)]
      exact Nat.succ_lt_succ hlt
    by_cases hp : p first
    · rw [List.filter_cons_of_pos hp, List.eraseDups_cons, List.pairwise_cons, List.filter_filter]
      refine ⟨fun a ha => ?_, later _ (by simp)⟩
      have hne : first ≠ a := by
        rintro rfl
        simp [List.mem_eraseDups] at ha
      rw [List.idxOf_cons_self, List.idxOf_cons_ne l hne]
      exact Nat.succ_pos _
    · rw [List.filter_cons_of_neg hp]
      exact later p (by simpa using hp)

theorem Document.danglingNames_missing {documents : List Document} {d : Document}
    (hmem : d ∈ documents) : DanglingNames documents d (d.missing (declaredBy documents)) where
  mem_iff _ := Document.mem_missing_iff hmem
  ordered := (pairwise_idxOf_eraseDups_filter d.schema.references _).filter _

theorem DanglingNames.eq_nil_iff {documents : List Document} {d : Document} {names : List String}
    (h : DanglingNames documents d names) : names = [] ↔ ∀ name, ¬ Dangles documents d name := by
  simp only [List.eq_nil_iff_forall_not_mem, h.mem_iff]

/-- The first of the dangling names appears before all others. -/
theorem DanglingNames.head {documents : List Document} {d : Document} {name : String}
    {names : List String} (h : DanglingNames documents d (name :: names)) :
    Dangles documents d name ∧
      ∀ other, Dangles documents d other → d.firstAppearance name ≤ d.firstAppearance other := by
  refine ⟨(h.mem_iff name).mp List.mem_cons_self, fun other hother => ?_⟩
  obtain rfl | hmem := List.mem_cons.mp ((h.mem_iff other).mpr hother)
  · exact Nat.le_refl _
  · exact Nat.le_of_lt ((List.pairwise_cons.mp h.ordered).1 other hmem)

/-! ### The check of one document -/

theorem Document.sound_iff {documents : List Document} {d : Document} (hmem : d ∈ documents) :
    Sound documents d ↔ (inspectDocument true (declaredBy documents) d).result = .ok () := by
  rw [result_inspectDocument_strict_eq_ok, (danglingNames_missing hmem).eq_nil_iff, Sound]

/-- The check of a sound document reports nothing, whether it is strict or not. -/
theorem inspectDocument_of_sound {documents : List Document} {d : Document}
    (hmem : d ∈ documents) (h : Sound documents d) (strict : Bool) :
    inspectDocument strict (declaredBy documents) d = .done () := by
  have hmissing := (Document.danglingNames_missing hmem).eq_nil_iff.mpr h.2
  cases strict with
  | true => simp only [inspectDocument, if_true, h.1, hmissing]
  | false =>
    rw [inspectDocument, if_neg Bool.false_ne_true, hmissing]
    rfl

/-- The strict check of a document fails with a defect of the document. -/
theorem defect_of_inspectDocument_strict {documents : List Document} {d : Document} {e : RunError}
    (hmem : d ∈ documents)
    (h : (inspectDocument true (declaredBy documents) d).result = .error e) :
    ∃ cause, Defect documents d cause ∧ e = .invalid d.source cause := by
  unfold inspectDocument at h
  rw [if_pos rfl] at h
  cases hcheck : d.schema.check with
  | error cause =>
    simp only [hcheck, Trace.fail, Except.error.injEq] at h
    exact ⟨cause, .repetition hcheck, h.symm⟩
  | ok =>
    have hnames := Document.danglingNames_missing hmem
    cases hmissing : d.missing (declaredBy documents) with
    | nil => simp [hcheck, hmissing, Trace.done] at h
    | cons name names =>
      rw [hmissing] at hnames
      obtain ⟨hname, hfirst⟩ := hnames.head
      simp only [hcheck, hmissing, Except.error.injEq] at h
      exact ⟨.unresolved name, .reference hcheck hname hfirst, h.symm⟩

/-! ### The check of all documents -/

theorem inspectEach_lenient (declared : List String) (documents : List Document) :
    inspectEach false declared documents =
      .report (documents.flatMap fun d => (d.missing declared).map (.unresolved d.source)) := by
  induction documents with
  | nil => rfl
  | cons d documents ih =>
    rw [inspectEach, ih, inspectDocument, if_neg Bool.false_ne_true, Trace.report_andThen,
      List.flatMap_cons]
    rfl

/-- The check of documents one after the other fails as the first of them that fails. -/
theorem exists_first_failure {strict : Bool} {declared : List String} {documents : List Document}
    {e : RunError} (h : (inspectEach strict declared documents).result = .error e) :
    ∃ before d after, documents = before ++ d :: after ∧
      (∀ earlier ∈ before, (inspectDocument strict declared earlier).result = .ok ()) ∧
      (inspectDocument strict declared d).result = .error e := by
  induction documents with
  | nil => cases h
  | cons d documents ih =>
    unfold inspectEach Trace.andThen at h
    cases hfirst : (inspectDocument strict declared d).result with
    | error e' =>
      rw [hfirst] at h
      cases h
      exact ⟨[], d, documents, rfl, by simp, hfirst⟩
    | ok =>
      rw [hfirst] at h
      obtain ⟨before, other, after, rfl, hbefore, hother⟩ := ih h
      refine ⟨d :: before, other, after, rfl, ?_, hother⟩
      rintro earlier (_ | ⟨_, hmem⟩)
      · exact hfirst
      · exact hbefore earlier hmem

/-- The lenient check succeeds and reports the dangling names, document by document. -/
theorem inspectDocuments_lenient (documents : List Document) :
    ∃ names : Document → List String,
      (∀ d ∈ documents, DanglingNames documents d (names d)) ∧
      inspectDocuments false documents =
        .report (documents.flatMap fun d => (names d).map (.unresolved d.source)) :=
  ⟨fun d => d.missing (declaredBy documents), fun _ hmem => Document.danglingNames_missing hmem,
    inspectEach_lenient _ documents⟩

theorem inspectDocuments_strict_eq_ok_iff {documents : List Document} :
    (inspectDocuments true documents).result = .ok () ↔ ∀ d ∈ documents, Sound documents d := by
  rw [inspectDocuments, result_inspectEach_eq_ok]
  exact forall_congr' fun d => forall_congr' fun hmem => (Document.sound_iff hmem).symm

theorem inspectEach_of_done {strict : Bool} {declared : List String} {documents : List Document}
    (h : ∀ d ∈ documents, inspectDocument strict declared d = .done ()) :
    inspectEach strict declared documents = .done () := by
  induction documents with
  | nil => rfl
  | cons d documents ih =>
    rw [inspectEach, h d List.mem_cons_self, Trace.done_andThen]
    exact ih fun other hmem => h other (List.mem_cons_of_mem d hmem)

/-- The check of sound documents reports nothing, whether it is strict or not. -/
theorem inspectDocuments_of_sound {documents : List Document}
    (h : ∀ d ∈ documents, Sound documents d) (strict : Bool) :
    inspectDocuments strict documents = .done () :=
  inspectEach_of_done fun d hmem => inspectDocument_of_sound hmem (h d hmem) strict

/-- The strict check of documents that are not all sound fails with a defect of the first one that
is not. -/
theorem exists_first_defect {documents : List Document}
    (h : (inspectDocuments true documents).result ≠ .ok ()) :
    ∃ before d after cause, documents = before ++ d :: after ∧
      (∀ earlier ∈ before, Sound documents earlier) ∧ Defect documents d cause ∧
      (inspectDocuments true documents).result = .error (.invalid d.source cause) := by
  cases hresult : (inspectDocuments true documents).result with
  | ok => exact absurd hresult h
  | error e =>
    obtain ⟨before, d, after, hsplit, hbefore, hd⟩ := exists_first_failure hresult
    have hmem : d ∈ documents := by simp [hsplit]
    obtain ⟨cause, hdefect, rfl⟩ := defect_of_inspectDocument_strict hmem hd
    refine ⟨before, d, after, cause, hsplit, fun earlier hearlier => ?_, hdefect, rfl⟩
    have hmem : earlier ∈ documents := by simp [hsplit, hearlier]
    exact (Document.sound_iff hmem).mpr (hbefore earlier hearlier)

theorem sound_congr {documents others : List Document} (h : documents.Perm others)
    {d : Document} : Sound documents d ↔ Sound others d := by
  simp only [Sound, Dangles, h.mem_iff]

/-! ### Runs -/

section Runs

variable {σ : Type} (settings : Settings) (documents : List Document) (reported : List Event)
  (writer : Writer σ) (state : σ)

/-- A run whose documents do not pass the check fails as the check does, and leaves the writer
alone. -/
theorem runOn_of_check_error {e : RunError}
    (h : (inspectDocuments settings.strict documents).result = .error e) :
    (runOn settings ⟨.ok documents, reported⟩ writer state).1.result = .error e ∧
      (runOn settings ⟨.ok documents, reported⟩ writer state).2 = state := by
  have hprepare : (prepare settings ⟨.ok documents, reported⟩).result = .error e := by
    simp [prepare, Trace.andThen, h]
  simp [runOn, hprepare]

/-- Runs whose settings differ only in strictness agree if the checks do. -/
theorem runOn_congr_of_check
    (h : inspectDocuments true documents = inspectDocuments false documents) :
    runOn { settings with strict := true } ⟨.ok documents, reported⟩ writer state =
      runOn { settings with strict := false } ⟨.ok documents, reported⟩ writer state := by
  have hprepare : prepare { settings with strict := true } ⟨.ok documents, reported⟩ =
      prepare { settings with strict := false } ⟨.ok documents, reported⟩ := by
    simp only [prepare, Trace.andThen, h]
  simp only [runOn, hprepare, Settings.target, Settings.banner]

/-- **Strict and lenient runs.** The lenient check succeeds and warns once of every dangling name of
every document, in the order of the documents and of first appearance. The strict check succeeds
exactly if all documents are sound. If it does, the strict run is the lenient run: it ends alike,
reports the same and leaves the same state, whatever the writer. If it does not, the run fails with
the defect of the first document that is not sound, and nothing is handed to the writer. Whether
documents are accepted does not depend on their order. -/
theorem strict_run_agrees_or_stops :
    (∃ names : Document → List String,
      (∀ d ∈ documents, DanglingNames documents d (names d)) ∧
      inspectDocuments false documents =
        ⟨.ok (), documents.flatMap fun d => (names d).map (.unresolved d.source)⟩) ∧
    ((inspectDocuments true documents).result = .ok () ↔ ∀ d ∈ documents, Sound documents d) ∧
    ((inspectDocuments true documents).result = .ok () →
      runOn { settings with strict := true } ⟨.ok documents, reported⟩ writer state =
        runOn { settings with strict := false } ⟨.ok documents, reported⟩ writer state) ∧
    ((inspectDocuments true documents).result ≠ .ok () →
      ∃ before d after cause, documents = before ++ d :: after ∧
        (∀ earlier ∈ before, Sound documents earlier) ∧ Defect documents d cause ∧
        (runOn { settings with strict := true } ⟨.ok documents, reported⟩ writer state).1.result =
          .error (.invalid d.source cause) ∧
        (runOn { settings with strict := true } ⟨.ok documents, reported⟩ writer state).2 = state) ∧
    (∀ others, documents.Perm others →
      ((inspectDocuments true documents).result = .ok () ↔
        (inspectDocuments true others).result = .ok ())) := by
  refine ⟨inspectDocuments_lenient documents, inspectDocuments_strict_eq_ok_iff, ?_, ?_, ?_⟩
  · intro hok
    have hsound := inspectDocuments_strict_eq_ok_iff.mp hok
    apply runOn_congr_of_check
    rw [inspectDocuments_of_sound hsound true, inspectDocuments_of_sound hsound false]
  · intro hfail
    obtain ⟨before, d, after, cause, hsplit, hbefore, hdefect, hresult⟩ := exists_first_defect hfail
    have hrun := runOn_of_check_error { settings with strict := true } documents reported writer
      state hresult
    exact ⟨before, d, after, cause, hsplit, hbefore, hdefect, hrun⟩
  · intro others hperm
    simp only [inspectDocuments_strict_eq_ok_iff, hperm.mem_iff, sound_congr hperm]

end Runs

end AvroTypings
