import Mathlib.Data.List.Forall2
import Mathlib.Data.List.Sort
import AvroTypings.Proofs.ByteOrder
import AvroTypings.Proofs.FileNames

/-!
# The documents of a folder

A directory enumerates its entries in any order. What is loaded from a folder does not depend on it:
the schema files of the folder have distinct names, so there is one way to list them in the order of
their bytes, and they are read in that order up to the first that has no document.

Files are looked up by the path of the folder and their name. A file whose path is too long to be
followed is not found to be one, and is left out.

## Main definitions

* `IsSchemaName`: the names of schema files.
* `IsSchemaFile`: the files of a folder that are read.
* `Listing`: these files in the order of their names.
* `HasDocument`, `HasNoDocument`: the document of a file, and why there is none.

## Main results

* `Listing.unique`: there is one listing.
* `listing_schemasAmong`: the files that are read are a listing.
* `readDocuments_cases`: what comes of reading files one after the other.
* `loadFolder_of_any_order`: what is loaded from a folder, whatever the order of its entries.
* `result_loadFolder_of_longPath`: nothing is loaded by a path that leaves no room for names.
-/

namespace AvroTypings

open FileTree (Contents)

/-! ### The files that are read -/

/-- A name of a schema file: the extension behind something. -/
def IsSchemaName (name : String) : Prop := ∃ stem, stem ≠ "" ∧ name = stem ++ ".avsc"

/-- A file of a folder that is read: it has the name of a schema file, and the path to it through
the folder is not too long to be followed. -/
structure IsSchemaFile (folder : Path) (entries : List (String × FileTree))
    (file : String × ByteArray) : Prop where
  mem : (file.1, .file file.2) ∈ entries
  isSchemaName : IsSchemaName file.1
  inReach : (folder.join ⟨file.1⟩).text.utf8ByteSize ≤ Path.lengthLimit

/-- The files of a folder that are read, in the order of the bytes of their names. -/
structure Listing (folder : Path) (entries : List (String × FileTree))
    (files : List (String × ByteArray)) : Prop where
  mem_iff : ∀ file, file ∈ files ↔ IsSchemaFile folder entries file
  ordered : files.Pairwise fun a b => Text.bytes a.1 < Text.bytes b.1

theorem extensionOf_eq_fileExtension_iff {name : String} :
    Path.extensionOf name = some Document.fileExtension ↔ IsSchemaName name := by
  rw [Path.extensionOf_eq_some_iff, and_iff_right (by decide)]
  refine exists_congr fun stem => and_congr_right fun _ => ?_
  rw [String.append_assoc]
  rfl

/-- Two listings of a folder are the same, since no two names have the same bytes. -/
theorem Listing.unique {folder : Path} {entries : List (String × FileTree)}
    {files others : List (String × ByteArray)} (h : Listing folder entries files)
    (h' : Listing folder entries others) : files = others := by
  have hirrefl : Std.Irrefl fun a b : String × ByteArray => Text.bytes a.1 < Text.bytes b.1 :=
    ⟨fun a => List.lt_irrefl (Text.bytes a.1)⟩
  have hantisymm : Std.Antisymm fun a b : String × ByteArray => Text.bytes a.1 < Text.bytes b.1 :=
    ⟨fun a b hab hba => absurd hba (List.lt_asymm hab)⟩
  exact h.ordered.eq_of_mem_iff h'.ordered fun file => (h.mem_iff file).trans (h'.mem_iff file).symm

/-- A listing does not depend on the order of the entries. -/
theorem Listing.of_perm {folder : Path} {entries others : List (String × FileTree)}
    {files : List (String × ByteArray)} (h : Listing folder entries files)
    (hperm : entries.Perm others) : Listing folder others files where
  mem_iff file := by
    rw [h.mem_iff]
    constructor <;> rintro ⟨hmem, hname, hreach⟩
    · exact ⟨hperm.mem_iff.mp hmem, hname, hreach⟩
    · exact ⟨hperm.mem_iff.mpr hmem, hname, hreach⟩
  ordered := h.ordered

theorem schemaFile?_eq_some_iff {entry : String × FileTree} {file : String × ByteArray} :
    schemaFile? entry = some file ↔ entry = (file.1, .file file.2) ∧ IsSchemaName file.1 := by
  obtain ⟨name, t⟩ := entry
  obtain ⟨fileName, fileContents⟩ := file
  cases t with
  | directory entries => simp [schemaFile?]
  | file contents =>
    simp only [schemaFile?, extensionOf_eq_fileExtension_iff, Option.ite_none_right_eq_some,
      Option.some.injEq, Prod.mk.injEq, FileTree.file.injEq]
    constructor
    · rintro ⟨hname, rfl, rfl⟩
      exact ⟨⟨rfl, rfl⟩, hname⟩
    · rintro ⟨⟨rfl, rfl⟩, hname⟩
      exact ⟨hname, rfl, rfl⟩

/-- The schema files among some entries are sorted by their names. -/
theorem pairwise_schemasAmong {entries : List (String × FileTree)}
    (hdistinct : (entries.map Prod.fst).Nodup) :
    (schemasAmong entries).Pairwise fun a b => a.1 < b.1 := by
  have hsorted : (schemasAmong entries).Pairwise fun a b => a.1 ≤ b.1 := by
    refine (List.pairwise_mergeSort ?_ ?_ _).imp of_decide_eq_true
    · intro a b c hab hbc
      exact decide_eq_true (String.le_trans (of_decide_eq_true hab) (of_decide_eq_true hbc))
    · intro a b
      simpa using String.le_total a.1 b.1
  have hnames : (entries.filterMap schemaFile?).Pairwise fun a b => a.1 ≠ b.1 := by
    refine (List.pairwise_map.mp hdistinct).filterMap _ fun a b hne file hfile other hother => ?_
    obtain ⟨rfl, -⟩ := schemaFile?_eq_some_iff.mp hfile
    obtain ⟨rfl, -⟩ := schemaFile?_eq_some_iff.mp hother
    exact hne
  have hperm : (schemasAmong entries).Perm (entries.filterMap schemaFile?) :=
    List.mergeSort_perm _ _
  have hdifferent := (hperm.pairwise_iff fun hne => Ne.symm hne).mpr hnames
  exact hsorted.imp₂ (fun _ _ hle hne => Std.lt_of_le_of_ne hle hne) hdifferent

/-- The schema files among the entries within reach are a listing of the folder. -/
theorem listing_schemasAmong {folder : Path} (hfolder : folder.fault? = none)
    (contents : Contents) :
    Listing folder contents.entries (schemasAmong (withinReach folder contents.entries)) where
  mem_iff file := by
    have hreach (hmem : (file.1, .file file.2) ∈ contents.entries) :
        (folder.join ⟨file.1⟩).fault?.isNone = true ↔
          (folder.join ⟨file.1⟩).text.utf8ByteSize ≤ Path.lengthLimit := by
      rw [Path.fault?_join hfolder (contents.isEntryName_of_mem hmem)]
      split <;> simp <;> omega
    simp only [schemasAmong, List.mem_mergeSort, List.mem_filterMap, schemaFile?_eq_some_iff,
      withinReach, List.mem_filter]
    constructor
    · rintro ⟨_, ⟨hmem, hfound⟩, rfl, hname⟩
      exact ⟨hmem, hname, (hreach hmem).mp hfound⟩
    · rintro ⟨hmem, hname, hlength⟩
      exact ⟨_, ⟨hmem, (hreach hmem).mpr hlength⟩, rfl, hname⟩
  ordered := by
    have hdistinct : ((withinReach folder contents.entries).map Prod.fst).Nodup :=
      contents.distinct.sublist (List.filter_sublist.map _)
    exact (pairwise_schemasAmong hdistinct).imp Text.bytes_lt_bytes

/-! ### Reading files -/

/-- The document of a file: its source is the name of the file, and its schema is what the text of
the file is read as. -/
structure HasDocument (file : String × ByteArray) (d : Document) : Prop where
  source : d.source = file.1
  schema : ∃ text, String.fromUTF8? file.2 = some text ∧ Schema.parse text = .ok d.schema

theorem hasDocument_of_parse {name text : String} {schema : Schema}
    (h : Schema.parse text = .ok schema) : HasDocument (name, text.toUTF8) ⟨name, schema⟩ :=
  ⟨rfl, text, dif_pos text.isValidUTF8, h⟩

/-- Why a file of a folder has no document: it holds no text, or its text is no schema. -/
inductive HasNoDocument (folder : Path) (file : String × ByteArray) : RunError → Prop
  | notText (hbytes : String.fromUTF8? file.2 = none) :
      HasNoDocument folder file (.read (folder.join ⟨file.1⟩) .notText)
  | notSchema {text : String} {cause : DecodeError} (htext : String.fromUTF8? file.2 = some text)
      (hparse : Schema.parse text = .error cause) :
      HasNoDocument folder file (.parse file.1 cause)

theorem readDocument_cases (folder : Path) (file : String × ByteArray) :
    (∃ d, HasDocument file d ∧ (readDocument folder file).result = .ok d) ∨
      ∃ e, HasNoDocument folder file e ∧ (readDocument folder file).result = .error e := by
  unfold readDocument Disk.decodeText
  cases htext : String.fromUTF8? file.2 with
  | none => exact .inr ⟨_, .notText htext, rfl⟩
  | some text =>
    cases hparse : Schema.parse text with
    | error cause =>
      refine .inr ⟨_, .notSchema htext hparse, ?_⟩
      simp [Document.parse, hparse, Except.map, Trace.fail]
    | ok schema =>
      refine .inl ⟨⟨file.1, schema⟩, ⟨rfl, text, htext, hparse⟩, ?_⟩
      simp [Document.parse, hparse, Except.map, Trace.done]

/-- Files are read up to the first that has no document. -/
theorem readDocuments_cases (folder : Path) (files : List (String × ByteArray)) :
    (∃ documents, List.Forall₂ HasDocument files documents ∧
      (readDocuments folder files).result = .ok documents) ∨
    ∃ before file after e, files = before ++ file :: after ∧
      (∀ earlier ∈ before, ∃ d, HasDocument earlier d) ∧ HasNoDocument folder file e ∧
      (readDocuments folder files).result = .error e := by
  induction files with
  | nil => exact .inl ⟨[], .nil, rfl⟩
  | cons file files ih =>
    rcases readDocument_cases folder file with ⟨d, hd, hread⟩ | ⟨e, he, hread⟩
    · rcases ih with
        ⟨documents, hdocuments, hothers⟩ | ⟨before, other, after, e, rfl, hbefore, he, hothers⟩
      · refine .inl ⟨d :: documents, .cons hd hdocuments, ?_⟩
        simp [readDocuments, Trace.andThen, hread, hothers, Trace.done]
      · refine .inr ⟨file :: before, other, after, e, rfl, ?_, he, ?_⟩
        · exact List.forall_mem_cons.mpr ⟨⟨d, hd⟩, hbefore⟩
        · simp [readDocuments, Trace.andThen, hread, hothers]
    · refine .inr ⟨[], file, files, e, rfl, by simp, he, ?_⟩
      simp [readDocuments, Trace.andThen, hread]

/-! ### Folders -/

section Folder

variable {folder : Path} {disk : Disk} {contents : Contents}

/-- A folder is loaded by reading the files of its listing. -/
theorem loadFolder_of_listing (hentries : disk.entries folder = .ok contents.entries)
    {files : List (String × ByteArray)} (hfiles : Listing folder contents.entries files) :
    loadFolder folder disk =
      (Trace.report [.found files.length folder]).andThen fun _ => readDocuments folder files := by
  have hfolder := (Disk.exists_place_of_entries hentries).1
  rw [hfiles.unique (listing_schemasAmong hfolder contents), loadFolder, hentries]
  rfl

/-- **Folders in any order.** What is loaded from a folder, and what is reported meanwhile, does not
depend on the order of its entries. It is the documents of the files in the listing of the folder,
one for each; or, if one of these files has no document, the reason for the first such file. -/
theorem loadFolder_of_any_order (hentries : disk.entries folder = .ok contents.entries) :
    (∀ (other : Disk) others, other.entries folder = .ok others → contents.entries.Perm others →
      loadFolder folder other = loadFolder folder disk) ∧
    ∃ files, Listing folder contents.entries files ∧
      ((∃ documents, List.Forall₂ HasDocument files documents ∧
        (loadFolder folder disk).result = .ok documents) ∨
      ∃ before file after e, files = before ++ file :: after ∧
        (∀ earlier ∈ before, ∃ d, HasDocument earlier d) ∧ HasNoDocument folder file e ∧
        (loadFolder folder disk).result = .error e) := by
  have hfolder := (Disk.exists_place_of_entries hentries).1
  have hfiles := listing_schemasAmong hfolder contents
  refine ⟨fun other others hothers hperm => ?_, _, hfiles, ?_⟩
  · have hother : other.entries folder = .ok (contents.reorder hperm).entries := hothers
    rw [loadFolder_of_listing hentries hfiles,
      loadFolder_of_listing hother (hfiles.of_perm hperm)]
  · rw [loadFolder_of_listing hentries hfiles, Trace.report_andThen]
    exact readDocuments_cases folder _

end Folder

/-- Two orders of a folder with a directory and a file that is all extension, neither of which is a
schema file. -/
theorem folder_in_two_orders :
    let int : FileTree := .file "\"int\"".toUTF8
    let contents : Contents :=
      ⟨[("b.avsc", int), (".avsc", int), ("c.avsc", .directory []), ("a.avsc", int)], by decide,
        by decide⟩
    let disk (entries : List (String × FileTree)) : Disk :=
      ⟨.directory [("schemas", .directory entries)], []⟩
    (disk contents.entries).entries ⟨"schemas"⟩ = .ok contents.entries ∧
      loadFolder ⟨"schemas"⟩ (disk contents.entries.reverse) =
        loadFolder ⟨"schemas"⟩ (disk contents.entries) := by
  intro int contents disk
  have hentries (entries) : (disk entries).entries ⟨"schemas"⟩ = .ok entries := by rfl
  refine ⟨hentries contents.entries, ?_⟩
  exact (loadFolder_of_any_order (hentries contents.entries)).1 _ _ (hentries _)
    (List.reverse_perm _).symm

/-! ### Files out of reach -/

/-- No file of a folder is read if the path of the folder leaves no room for their names. -/
theorem result_loadFolder_of_longPath {folder : Path} {disk : Disk} {contents : Contents}
    (hentries : disk.entries folder = .ok contents.entries)
    (hlong : ∀ name ∈ contents.entries.map Prod.fst,
      Path.lengthLimit < folder.text.utf8ByteSize + name.utf8ByteSize) :
    (loadFolder folder disk).result = .ok [] := by
  have hfolder := (Disk.exists_place_of_entries hentries).1
  have hnone (file : String × ByteArray) : ¬ IsSchemaFile folder contents.entries file := by
    rintro ⟨hmem, -, hreach⟩
    have hsize := Path.utf8ByteSize_le_join hfolder (contents.isEntryName_of_mem hmem)
    have hroom := hlong file.1 (List.mem_map.mpr ⟨_, hmem, rfl⟩)
    omega
  have hfiles : Listing folder contents.entries [] :=
    ⟨fun file => iff_of_false List.not_mem_nil (hnone file), .nil⟩
  rw [loadFolder_of_listing hentries hfiles, Trace.report_andThen]
  rfl

/-- A path to the directory `s` that ends in a number of slashes. It is not to be unfolded into
all of them. -/
@[irreducible] def slashedFolder (count : Nat) : Path :=
  ⟨"s" ++ String.ofList (List.replicate count '/')⟩

namespace slashedFolder

variable (count : Nat)

theorem utf8ByteSize_slashes : (String.ofList (List.replicate count '/')).utf8ByteSize = count := by
  induction count with
  | zero => rfl
  | succ count ih =>
    rw [List.replicate_succ', String.ofList_append, String.utf8ByteSize_append, ih]
    rfl

theorem splitOn_slashes :
    (List.replicate count '/').splitOn '/' = List.replicate (count + 1) [] := by
  induction count with
  | zero => rfl
  | succ count ih =>
    have hfirst := List.splitOn_append_cons_self [] (List.replicate count '/') (a := '/')
    rw [List.nil_append] at hfirst
    rw [List.replicate_succ, hfirst, ih]
    rfl

theorem toList_text : (slashedFolder count).text.toList = 's' :: List.replicate count '/' := by
  simp [slashedFolder]

theorem utf8ByteSize_text : (slashedFolder count).text.utf8ByteSize = 1 + count := by
  rw [slashedFolder, String.utf8ByteSize_append, utf8ByteSize_slashes]
  rfl

theorem segments_eq : (slashedFolder count).segments = ["s"] := by
  have hletter : ['s'].splitOn '/' = [['s']] := List.splitOn_eq_singleton (by decide)
  rw [Path.segments_of_toList (toList_text count)]
  cases count with
  | zero =>
    rw [List.replicate_zero, hletter]
    rfl
  | succ count =>
    rw [List.replicate_succ, ← List.singleton_append, List.splitOn_append_cons_self, hletter,
      splitOn_slashes]
    simp

theorem fault?_eq_none (h : count + 1 ≤ Path.lengthLimit) :
    (slashedFolder count).fault? = none := by
  have hnull : (slashedFolder count).text.toList.contains '\x00' = false := by
    simp [toList_text]
  have hempty : (slashedFolder count).text.isEmpty = false := by
    simp [slashedFolder]
  rw [Path.fault?, hnull, hempty, utf8ByteSize_text, if_neg Bool.false_ne_true,
    if_neg Bool.false_ne_true, if_neg (by omega)]

/-- The directory is found in spite of the slashes. -/
theorem entries_eq {entries : List (String × FileTree)} (h : count + 1 ≤ Path.lengthLimit) :
    (⟨.directory [("s", .directory entries)], []⟩ : Disk).entries (slashedFolder count) =
      .ok entries := by
  have habsolute : (slashedFolder count).isAbsolute = false := by
    simp [Path.isAbsolute, toList_text]
  simp only [Disk.entries, Disk.find, Disk.locate, Disk.origin, fault?_eq_none count h, segments_eq,
    habsolute]
  rfl

theorem leaves_no_room (t : FileTree) : ∀ name ∈ [("a.avsc", t)].map Prod.fst,
    Path.lengthLimit < (slashedFolder 4090).text.utf8ByteSize + name.utf8ByteSize := by
  intro name hmem
  have hname : name = "a.avsc" := List.mem_singleton.mp hmem
  rw [utf8ByteSize_text, hname]
  decide

end slashedFolder

/-- A schema file is left out of what is loaded if the path to it through the folder is too long,
although the folder itself is found. -/
theorem schema_file_out_of_reach_is_left_out :
    let contents : Contents := ⟨[("a.avsc", .file "\"int\"".toUTF8)], by decide, by decide⟩
    let disk : Disk := ⟨.directory [("s", .directory contents.entries)], []⟩
    disk.entries (slashedFolder 4090) = .ok contents.entries ∧ IsSchemaName "a.avsc" ∧
      (loadFolder (slashedFolder 4090) disk).result = .ok [] := by
  intro contents disk
  have hentries : disk.entries (slashedFolder 4090) = .ok contents.entries :=
    slashedFolder.entries_eq 4090 (by decide)
  refine ⟨hentries, ⟨"a", by decide, by decide⟩, ?_⟩
  exact result_loadFolder_of_longPath hentries (slashedFolder.leaves_no_room _)

end AvroTypings
