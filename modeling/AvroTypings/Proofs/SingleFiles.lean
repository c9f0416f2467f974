import AvroTypings.Proofs.Listing
import AvroTypings.Proofs.Strictness

/-!
# Single files and runs

The typings of a file can be made from the file alone, or by a run on the folder that it lies in.
The two ways look the file up, read it and word their errors separately. This file shows that they
agree: a lenient run writes the typings of the single files under a title each, or it fails as the
first of the single files that fails.

They differ on a file that is out of reach. It has no typings of its own since it is not found, but
a run passes over it.

## Main definitions

* `TypingsError.inRun`: how a run puts the error of a single file.
* `IsSection`: the part of the output that belongs to a file.
* `WritesOutput`: a run that has nothing left to do but to write a text.

## Main results

* `typingsOfFile_of_hasDocument`, `typingsOfFile_of_hasNoDocument`: what a single file gives.
* `writesOutput_of_loadFolder`: a lenient run on documents writes their bundle.
* `run_agrees_with_single_files`: how a lenient run on a folder compares with its files.
-/

namespace AvroTypings

open FileTree (IsEntryName Contents)

/-! ### Single files -/

/-- How a run puts the error of a file in its folder. -/
def TypingsError.inRun (folder : Path) (name : String) : TypingsError → RunError
  | .decode cause => .parse name cause
  | .io cause => .read (folder.join ⟨name⟩) cause

section SingleFile

variable {folder : Path} {disk : Disk} {contents : Contents} {file : String × ByteArray}

theorem readText_of_isSchemaFile (hentries : disk.entries folder = .ok contents.entries)
    (hfile : IsSchemaFile folder contents.entries file) :
    disk.readText (folder.join ⟨file.1⟩) = Disk.decodeText file.2 := by
  rw [Disk.readText, Disk.find_join hentries hfile.mem hfile.inReach]

/-- A file that is read gives, on its own, the typings of its text under its name. -/
theorem typingsOfFile_of_text (hentries : disk.entries folder = .ok contents.entries)
    (hfile : IsSchemaFile folder contents.entries file) {text : String}
    (htext : String.fromUTF8? file.2 = some text) :
    typingsOfFile (folder.join ⟨file.1⟩) disk = typingsOfText file.1 text := by
  have hfolder := (Disk.exists_place_of_entries hentries).1
  have hname := Path.fileName_join hfolder (contents.isEntryName_of_mem hfile.mem)
  rw [typingsOfFile, readText_of_isSchemaFile hentries hfile, Disk.decodeText, htext, hname]
  rfl

theorem typingsOfFile_of_hasDocument (hentries : disk.entries folder = .ok contents.entries)
    (hfile : IsSchemaFile folder contents.entries file) {d : Document}
    (hd : HasDocument file d) :
    (typingsOfFile (folder.join ⟨file.1⟩) disk).result = .ok d.render := by
  obtain ⟨source, schema⟩ := d
  obtain ⟨rfl, text, htext, hparse⟩ := hd
  rw [typingsOfFile_of_text hentries hfile htext, typingsOfText, Document.parse, hparse]
  rfl

theorem typingsOfFile_of_hasNoDocument (hentries : disk.entries folder = .ok contents.entries)
    (hfile : IsSchemaFile folder contents.entries file) {e : RunError}
    (he : HasNoDocument folder file e) :
    ∃ cause, (typingsOfFile (folder.join ⟨file.1⟩) disk).result = .error cause ∧
      e = cause.inRun folder file.1 := by
  cases he with
  | notText hbytes =>
    refine ⟨.io .notText, ?_, rfl⟩
    rw [typingsOfFile, readText_of_isSchemaFile hentries hfile, Disk.decodeText, hbytes]
    rfl
  | notSchema htext hparse =>
    refine ⟨.decode _, ?_, rfl⟩
    rw [typingsOfFile_of_text hentries hfile htext, typingsOfText, Document.parse, hparse]
    rfl

/-- A file out of reach is not found. -/
theorem typingsOfFile_of_longPath {name : String} (hfolder : folder.fault? = none)
    (hname : IsEntryName name)
    (hlong : Path.lengthLimit < (folder.join ⟨name⟩).text.utf8ByteSize) :
    (typingsOfFile (folder.join ⟨name⟩) disk).result = .error (.io .nameTooLong) := by
  have hfault := Path.fault?_join hfolder hname
  rw [if_pos hlong] at hfault
  simp only [typingsOfFile, Disk.readText, Disk.find, Disk.locate, hfault]
  rfl

end SingleFile

/-! ### Lenient runs -/

/-- A run that has nothing left to do but to write a text: if it succeeds, the text is in the file
that its path leads to, and if it fails, it is because the text cannot be stored. The path leads
there provided that the current directory was not taken away before the run. -/
structure WritesOutput (settings : Settings) (disk : Disk) (text : String) : Prop where
  written : ∀ path, (runOnDisk settings disk).1.result = .ok path →
    path = settings.target ∧ ∃ place,
      FileTree.WritesFileAt place text.toUTF8 disk.root (runOnDisk settings disk).2.root ∧
      (disk.root.entryAt disk.current ≠ none →
        (runOnDisk settings disk).2.locate path = .ok place)
  failed : ∀ e, (runOnDisk settings disk).1.result = .error e →
    ∃ cause, (disk.store settings.target text.toUTF8).1 = .error cause ∧
      e = .write settings.target cause

section Run

variable {settings : Settings} {disk : Disk}

/-- A lenient run has the documents that were loaded, whatever their defects. -/
theorem result_prepare_lenient (hlenient : settings.strict = false)
    (loaded : Trace RunError (List Document)) :
    (prepare settings loaded).result = loaded.result := by
  cases hloaded : loaded.result with
  | error e => simp [prepare, Trace.andThen, hloaded]
  | ok documents =>
    simp only [prepare, Trace.andThen, hloaded, hlenient, inspectDocuments, inspectEach_lenient]
    rfl

/-- A lenient run on documents ends as storing their bundle does. -/
theorem runOnDisk_of_loadFolder {documents : List Document} (hlenient : settings.strict = false)
    (hload : (loadFolder settings.schemaDir disk).result = .ok documents) :
    (runOnDisk settings disk).1.result =
        ((disk.store settings.target (bundle settings.banner documents).toUTF8).1.mapError
          (RunError.write settings.target)).map (fun _ => settings.target) ∧
      (runOnDisk settings disk).2 =
        (disk.store settings.target (bundle settings.banner documents).toUTF8).2 := by
  have hprepare : (prepare settings (loadFolder settings.schemaDir disk)).result = .ok documents :=
    (result_prepare_lenient hlenient _).trans hload
  obtain ⟨e, herror, -⟩ | ⟨others, hothers, hresult, hstate⟩ :=
    runOn_cases settings (loadFolder settings.schemaDir disk) diskWriter disk
  · cases hprepare.symm.trans herror
  · cases hprepare.symm.trans hothers
    rw [result_diskWriter] at hresult
    rw [state_diskWriter] at hstate
    exact ⟨hresult, hstate⟩

theorem writesOutput_of_loadFolder {documents : List Document} (hlenient : settings.strict = false)
    (hload : (loadFolder settings.schemaDir disk).result = .ok documents) :
    WritesOutput settings disk (bundle settings.banner documents) := by
  obtain ⟨hresult, hstate⟩ := runOnDisk_of_loadFolder hlenient hload
  cases hstored : (disk.store settings.target (bundle settings.banner documents).toUTF8).1 with
  | error cause =>
    rw [hstored] at hresult
    refine ⟨fun path hpath => ?_, fun e he => ⟨cause, hstored, ?_⟩⟩
    · cases hresult.symm.trans hpath
    · exact (Except.error.inj (hresult.symm.trans he)).symm
  | ok =>
    rw [hstored] at hresult
    refine ⟨fun path hpath => ?_, fun e he => ?_⟩
    · cases hresult.symm.trans hpath
      rw [hstate]
      exact ⟨rfl, Disk.store_ok hstored⟩
    · cases hresult.symm.trans he

/-- A run fails if its documents cannot be loaded, and leaves the disk alone. -/
theorem runOnDisk_of_loadFolder_error {e : RunError}
    (hload : (loadFolder settings.schemaDir disk).result = .error e) :
    (runOnDisk settings disk).1.result = .error e ∧ (runOnDisk settings disk).2 = disk := by
  have hprepare : (prepare settings (loadFolder settings.schemaDir disk)).result = .error e := by
    simp [prepare, Trace.andThen, hload]
  simp [runOnDisk, runOn, hprepare]

end Run

/-! ### Runs and single files -/

/-- The part of the output that belongs to a file of a folder: a title with the name of its
document, and what the file gives on its own. -/
def IsSection (folder : Path) (disk : Disk) (file : String × ByteArray) (part : String) : Prop :=
  ∃ d typings, HasDocument file d ∧
    (typingsOfFile (folder.join ⟨file.1⟩) disk).result = .ok typings ∧
    part = "// ===== " ++ d.name ++ " (from " ++ file.1 ++ ") =====\n" ++ typings

theorem isSection_titled {folder : Path} {disk : Disk} {file : String × ByteArray} {d : Document}
    (hd : HasDocument file d)
    (htypings : (typingsOfFile (folder.join ⟨file.1⟩) disk).result = .ok d.render) :
    IsSection folder disk file d.titled :=
  ⟨d, d.render, hd, htypings, by rw [Document.titled, Document.title, hd.source]⟩

section Agreement

variable {settings : Settings} {disk : Disk} {contents : Contents}

/-- **Runs and single files agree.** A lenient run goes through the files in the listing of its
folder. Either each of them has typings of its own, and then the run writes these, each under the
title of its document, below the banner. Or the run fails with the error of the first of them that
has none, and leaves the disk alone. A schema file that is not in the listing has no typings of its
own either, as the path to it is too long. -/
theorem run_agrees_with_single_files (hlenient : settings.strict = false)
    (hentries : disk.entries settings.schemaDir = .ok contents.entries) :
    ∃ files, Listing settings.schemaDir contents.entries files ∧
      (∀ name bytes, (name, .file bytes) ∈ contents.entries → IsSchemaName name →
        (name, bytes) ∉ files →
        (typingsOfFile (settings.schemaDir.join ⟨name⟩) disk).result =
          .error (.io .nameTooLong)) ∧
      ((∃ parts, List.Forall₂ (IsSection settings.schemaDir disk) files parts ∧
        WritesOutput settings disk
          (settings.banner.render ++ "\n" ++ "\n".intercalate parts)) ∨
      ∃ before file after e, files = before ++ file :: after ∧
        (∀ earlier ∈ before, ∃ typings,
          (typingsOfFile (settings.schemaDir.join ⟨earlier.1⟩) disk).result = .ok typings) ∧
        (typingsOfFile (settings.schemaDir.join ⟨file.1⟩) disk).result = .error e ∧
        (runOnDisk settings disk).1.result = .error (e.inRun settings.schemaDir file.1) ∧
        (runOnDisk settings disk).2 = disk) := by
  have hfolder := (Disk.exists_place_of_entries hentries).1
  have hfiles := listing_schemasAmong hfolder contents
  generalize schemasAmong (withinReach settings.schemaDir contents.entries) = files at hfiles
  have hload : (loadFolder settings.schemaDir disk).result =
      (readDocuments settings.schemaDir files).result := by
    rw [loadFolder_of_listing hentries hfiles, Trace.report_andThen]
  refine ⟨files, hfiles, fun name bytes hmem hname hleft => ?_, ?_⟩
  · refine typingsOfFile_of_longPath hfolder (contents.isEntryName_of_mem hmem) (Nat.not_le.mp ?_)
    exact fun hreach => hleft ((hfiles.mem_iff _).mpr ⟨hmem, hname, hreach⟩)
  · obtain ⟨documents, hdocuments, hread⟩ | ⟨before, file, after, e, rfl, hbefore, he, hread⟩ :=
      readDocuments_cases settings.schemaDir files
    · refine .inl ⟨documents.map Document.titled, ?_, ?_⟩
      · have hschemas := fun file => (hfiles.mem_iff file).mp
        have hpairs := (List.forall₂_and_left _ _).mpr ⟨hschemas, hdocuments⟩
        refine List.forall₂_map_right_iff.mpr (hpairs.imp fun file d ⟨hfile, hd⟩ => ?_)
        exact isSection_titled hd (typingsOfFile_of_hasDocument hentries hfile hd)
      · exact writesOutput_of_loadFolder hlenient (hload.trans hread)
    · have hfile := (hfiles.mem_iff file).mp (List.mem_append_right _ List.mem_cons_self)
      obtain ⟨cause, htypings, rfl⟩ := typingsOfFile_of_hasNoDocument hentries hfile he
      refine .inr ⟨before, file, after, cause, rfl, fun earlier hmem => ?_, htypings, ?_⟩
      · obtain ⟨d, hd⟩ := hbefore earlier hmem
        have hearlier := (hfiles.mem_iff earlier).mp (List.mem_append_left _ hmem)
        exact ⟨d.render, typingsOfFile_of_hasDocument hentries hearlier hd⟩
      · exact runOnDisk_of_loadFolder_error (hload.trans hread)

end Agreement

/-- A folder of two files, the first of which refers to a name that neither declares. Both have
typings of their own, so the run writes the two sections. -/
theorem run_of_two_files_agrees :
    let settings : Settings := {}
    let a : String × ByteArray := ("a.avsc", "\"b\"".toUTF8)
    let b : String × ByteArray := ("b.avsc", "\"int\"".toUTF8)
    let contents : Contents := ⟨[(b.1, .file b.2), (a.1, .file a.2)], by decide, by decide⟩
    let disk : Disk := ⟨.directory [("schemas", .directory contents.entries)], []⟩
    (settings.strict = false ∧ disk.entries settings.schemaDir = .ok contents.entries) ∧
      Listing settings.schemaDir contents.entries [a, b] ∧
      ∃ parts, List.Forall₂ (IsSection settings.schemaDir disk) [a, b] parts ∧
        WritesOutput settings disk
          (settings.banner.render ++ "\n" ++ "\n".intercalate parts) := by
  intro settings a b contents disk
  have hfound (inner : List (String × FileTree)) :
      (⟨.directory [("schemas", .directory inner)], []⟩ : Disk).entries ⟨"schemas"⟩ =
        .ok inner := by
    rfl
  have hentries : disk.entries settings.schemaDir = .ok contents.entries := hfound contents.entries
  have hlenient : settings.strict = false := rfl
  have ha : IsSchemaFile settings.schemaDir contents.entries a :=
    ⟨List.mem_cons_of_mem _ List.mem_cons_self, ⟨"a", by decide, by decide⟩, by decide⟩
  have hb : IsSchemaFile settings.schemaDir contents.entries b :=
    ⟨List.mem_cons_self, ⟨"b", by decide, by decide⟩, by decide⟩
  have hlisting : Listing settings.schemaDir contents.entries [a, b] := by
    refine ⟨fun file => ⟨?_, fun hfile => ?_⟩, by decide⟩
    · exact List.forall_mem_cons.mpr ⟨ha, List.forall_mem_singleton.mpr hb⟩ file
    · have hmem := hfile.mem
      simp only [contents, List.mem_cons, List.not_mem_nil, or_false, Prod.mk.injEq,
        FileTree.file.injEq] at hmem
      obtain ⟨hname, hbytes⟩ | ⟨hname, hbytes⟩ := hmem
      · exact List.mem_cons_of_mem _ (List.mem_singleton.mpr (Prod.ext hname hbytes))
      · exact List.mem_cons.mpr (.inl (Prod.ext hname hbytes))
  -- Both texts are schemas, a reference and a primitive type, so neither file fails.
  have hreference : Schema.parse "\"b\"" = .ok (.named "b") := by cbv
  have hprimitive : Schema.parse "\"int\"" = .ok (.primitive .int) := by cbv
  have hdocuments : ∀ file ∈ [a, b], ∃ d, HasDocument file d :=
    List.forall_mem_cons.mpr ⟨⟨_, hasDocument_of_parse hreference⟩,
      List.forall_mem_singleton.mpr ⟨_, hasDocument_of_parse hprimitive⟩⟩
  refine ⟨⟨hlenient, hentries⟩, hlisting, ?_⟩
  obtain ⟨files, hfiles, -, hwritten | ⟨before, file, after, e, hsplit, -, htypings, -⟩⟩ :=
    run_agrees_with_single_files hlenient hentries
  · rwa [hfiles.unique hlisting] at hwritten
  · have hmem : file ∈ [a, b] := by
      rw [← hfiles.unique hlisting, hsplit]
      exact List.mem_append_right _ List.mem_cons_self
    obtain ⟨d, hd⟩ := hdocuments file hmem
    have hgood := typingsOfFile_of_hasDocument hentries ((hlisting.mem_iff file).mp hmem) hd
    cases hgood.symm.trans htypings

/-- A run with nothing to bundle still writes its output, here next to the directory `s`. -/
theorem result_runOnDisk_of_nothing {folder : Path} {inner : FileTree}
    (hload : (loadFolder folder ⟨.directory [("s", inner)], []⟩).result = .ok []) :
    (runOnDisk { schemaDir := folder } ⟨.directory [("s", inner)], []⟩).1.result =
      .ok ⟨"generated/ts/events.ts"⟩ := by
  have htarget : ({ schemaDir := folder } : Settings).target = ⟨"generated/ts/events.ts"⟩ := by
    simp only [Settings.target]
    decide
  have hstored (contents : ByteArray) :
      ((⟨.directory [("s", inner)], []⟩ : Disk).store ⟨"generated/ts/events.ts"⟩ contents).1 =
        .ok () := by
    rfl
  have hlenient : ({ schemaDir := folder } : Settings).strict = false := rfl
  rw [(runOnDisk_of_loadFolder hlenient hload).1, htarget, hstored]
  rfl

/-- A run succeeds on a folder with a file that, on its own, has no typings since the path to it is
too long. -/
theorem run_passes_over_file_out_of_reach :
    let contents : Contents := ⟨[("a.avsc", .file "\"int\"".toUTF8)], by decide, by decide⟩
    let disk : Disk := ⟨.directory [("s", .directory contents.entries)], []⟩
    disk.entries (slashedFolder 4090) = .ok contents.entries ∧ IsSchemaName "a.avsc" ∧
      (typingsOfFile ((slashedFolder 4090).join ⟨"a.avsc"⟩) disk).result =
        .error (.io .nameTooLong) ∧
      (runOnDisk { schemaDir := slashedFolder 4090 } disk).1.result =
        .ok ⟨"generated/ts/events.ts"⟩ := by
  intro contents disk
  have hentries : disk.entries (slashedFolder 4090) = .ok contents.entries :=
    slashedFolder.entries_eq 4090 (by decide)
  have hlong := slashedFolder.leaves_no_room (.file "\"int\"".toUTF8)
  have hfolder := slashedFolder.fault?_eq_none 4090 (by decide)
  have hname : IsEntryName "a.avsc" := by decide
  refine ⟨hentries, ⟨"a", by decide, by decide⟩, ?_, ?_⟩
  · refine typingsOfFile_of_longPath hfolder hname ?_
    exact Nat.lt_of_lt_of_le (hlong _ List.mem_cons_self) (Path.utf8ByteSize_le_join hfolder hname)
  · exact result_runOnDisk_of_nothing (result_loadFolder_of_longPath hentries hlong)

end AvroTypings
