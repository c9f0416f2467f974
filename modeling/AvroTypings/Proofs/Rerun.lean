import AvroTypings.Proofs.SingleFiles

/-!
# Running again

A run changes the disk that it has read: it makes directories and writes a file, perhaps in the
folder of the schemas itself. This file shows that a second run finds the same documents, has
nothing to make, and writes what is already there.

The schema files of a folder are among the files directly inside it. Making directories leaves these
files alone everywhere, and writing a file does so in every directory but its own. What a path leads
to stays where it was, since the tree only grows.

## Main definitions

* `Disk.IsAnchored`: no file stands in the place of the current directory.
* `isRead`: the files of a folder that are read.

## Main results

* `Disk.store_again`: storing a file again changes nothing.
* `loadFolder_of_store`: what is loaded from a folder once a file is stored.
* `runOnDisk_again`: a second run ends as the first, and leaves the disk as it is.
-/

namespace AvroTypings

/-! ### Storing a file again -/

namespace Disk

open FileTree (KeepsWays Reachable reachable_origin walk_of_keepsWays)

variable {d before after written : Disk} {path : Path} {contents : ByteArray}

/-- No file stands in the place of the current directory, or in that of a directory above it. -/
def IsAnchored (d : Disk) : Prop :=
  ∀ place contents, place <+: d.current → d.root.entryAt place ≠ some (.file contents)

/-- A path leads where it did once more is there. This needs care only if the current directory was
taken away: a file that is put in its place would be taken for it. -/
theorem keepsWays (hgrows : before.root.Grows after.root)
    (hcurrent : after.current = before.current)
    (hanchored : before.root.entryAt before.current = none → after.IsAnchored) (path : Path) :
    KeepsWays (before.origin path) before.root after.root := by
  unfold origin
  split
  · exact FileTree.keepsWays_of_grows hgrows (by simp [FileTree.entryAt])
  · by_cases hgone : before.root.entryAt before.current = none
    · refine ⟨hgrows, fun place habove _ contents => ?_⟩
      exact hanchored hgone place contents (hcurrent ▸ habove)
    · exact FileTree.keepsWays_of_grows hgrows hgone

theorem makeDirectories_again (hmade : (d.makeDirectories path).1 = .ok ())
    (hcurrent : after.current = d.current)
    (hkeeps : KeepsWays (d.origin path) (d.makeDirectories path).2.root after.root) :
    after.makeDirectories path = (.ok (), after) := by
  have horigin : after.origin path = d.origin path := by rw [origin, origin, hcurrent]
  unfold makeDirectories at hmade hkeeps ⊢
  by_cases hempty : path.text.isEmpty
  · rw [if_pos hempty]
  · rw [if_neg hempty] at hmade hkeeps ⊢
    cases hfault : path.fault? with
    | some e =>
      rw [hfault] at hmade
      cases hmade
    | none =>
      rw [hfault] at hmade hkeeps
      dsimp only at hmade hkeeps ⊢
      have hleads := FileTree.leadsToDirectory_of_makeDirectories hmade
      have hafter := FileTree.leadsToDirectory_of_keepsWays hkeeps hleads
      rw [horigin, Path.chain, FileTree.makeDirectories_of_leads hafter]

/-- A file is written if the path ends in a name, the directory that it lies in is reached, and no
directory has the name. -/
theorem writeFile_of_parent {front place : List String} {name : String}
    {entries : List (String × FileTree)} (hfault : path.fault? = none)
    (hslash : path.endsInSlash = false) (hfront : path.segments = front ++ [name])
    (hname : name ≠ "." ∧ name ≠ ".." ∧ FileTree.exceedsLimit name = false)
    (hwalk : d.root.walk (d.origin path) front = .ok place)
    (hdir : d.root.get? place = some (.directory entries))
    (hfree : ∀ inner, entries.lookup name ≠ some (.directory inner)) (contents : ByteArray) :
    d.writeFile path contents =
      .ok { d with root := d.root.put place name (.file contents) } := by
  have hparent : d.root.parentOf (d.origin path) path.segments = .ok (place, some entries) := by
    simp [FileTree.parentOf, hfront, hwalk, hdir]
  have hlast : path.segments.getLast? = some name := by simp [hfront]
  unfold writeFile
  rw [hfault, hlast]
  dsimp only
  rw [hparent]
  simp only [hname, hslash, decide_false, Bool.or_false, Bool.false_eq_true, if_false]

theorem writeFile_again (h : d.writeFile path contents = .ok written)
    (hkeeps : KeepsWays (d.origin path) d.root written.root) :
    written.writeFile path contents = .ok written := by
  obtain ⟨front, name, place, entries, hfault, hslash, hfront, hname, hwalk, hdir, hfree, rfl⟩ :=
    exists_parent_of_writeFile h
  have hfile (inner : List (String × FileTree)) :
      (FileTree.setEntry name (.file contents) entries).lookup name ≠ some (.directory inner) := by
    simp
  have hagain := writeFile_of_parent hfault hslash hfront hname
    (walk_of_keepsWays hkeeps (reachable_origin _ _) hwalk).1 (FileTree.get?_put_self hdir _) hfile
    contents
  rw [hagain, FileTree.put_put]

/-- The path of a written file leads to a name in a directory, and the files with other names or in
other directories are left alone. -/
theorem exists_place_of_writeFile (h : d.writeFile path contents = .ok written)
    (hkeeps : KeepsWays (d.origin path) d.root written.root) :
    ∃ place name, written.locate path = .ok (place ++ [name]) ∧
      ∀ other (p : String × ByteArray → Bool), (other = place → ∀ old, p (name, old) = false) →
        (written.root.filesAt other).filter p = (d.root.filesAt other).filter p := by
  obtain ⟨front, name, place, entries, hfault, hslash, hfront, hname, hwalk, hdir, hfree, rfl⟩ :=
    exists_parent_of_writeFile h
  refine ⟨place, name, locate_of_walk hfault hslash ?_, fun other p hp => ?_⟩
  · rw [hfront]
    exact FileTree.walk_put hkeeps hname hwalk hdir
  · exact FileTree.filesAt_put_file hdir hfree contents hp

theorem filesAt_makeDirectories (d : Disk) (path : Path) (place : List String) :
    (d.makeDirectories path).2.root.filesAt place = d.root.filesAt place := by
  unfold makeDirectories
  split
  · rfl
  · split
    · rfl
    · exact FileTree.filesAt_makeDirectories d.root _ _ place

/-- A file is stored by making the directories it lies in and writing it. -/
theorem exists_made_of_store (h : (d.store path contents).1 = .ok ()) :
    (d.makeDirectories path.parent).1 = .ok () ∧
      (d.makeDirectories path.parent).2.writeFile path contents =
        .ok (d.store path contents).2 := by
  unfold store at h ⊢
  split at h
  · cases h
  · next made hmade =>
    rw [hmade]
    split at h
    · next written hwritten => exact ⟨rfl, hwritten⟩
    · cases h

theorem store_of_made {made : Disk} (hmade : d.makeDirectories path.parent = (.ok (), made))
    (hwritten : made.writeFile path contents = .ok written) :
    d.store path contents = (.ok (), written) := by
  unfold store
  rw [hmade]
  dsimp only
  rw [hwritten]

section Store

variable (h : (d.store path contents).1 = .ok ())
  (hanchored : d.root.entryAt d.current = none → (d.store path contents).2.IsAnchored)

include h hanchored

/-- Storing a file keeps every way on the disk. -/
theorem keepsWays_store (other : Path) :
    KeepsWays (d.origin other) d.root (d.store path contents).2.root := by
  obtain ⟨place, hwrites, -⟩ := store_ok h
  exact keepsWays hwrites.grows (current_store d path contents) hanchored other

/-- Writing the file keeps every way on the disk on which its directories are made. -/
theorem keepsWays_writeFile (other : Path) :
    KeepsWays ((d.makeDirectories path.parent).2.origin other)
      (d.makeDirectories path.parent).2.root (d.store path contents).2.root := by
  obtain ⟨hcurrent, place, hwrites, -⟩ := exists_of_writeFile (exists_made_of_store h).2
  refine keepsWays hwrites.grows hcurrent (fun hgone => hanchored ?_) other
  rw [current_makeDirectories] at hgone
  obtain hsame | ⟨hnone, -⟩ := onlyAddsDirectories_makeDirectories d path.parent d.current
  · exact hsame.symm.trans hgone
  · exact hnone

/-- Storing a file again changes nothing. -/
theorem store_again :
    (d.store path contents).2.store path contents = (.ok (), (d.store path contents).2) := by
  obtain ⟨hmade, hwritten⟩ := exists_made_of_store h
  have horigin : (d.makeDirectories path.parent).2.origin path.parent = d.origin path.parent := by
    rw [origin, origin, current_makeDirectories]
  have hways := keepsWays_writeFile h hanchored path.parent
  rw [horigin] at hways
  exact store_of_made (makeDirectories_again hmade (current_store d path contents) hways)
    (writeFile_again hwritten (keepsWays_writeFile h hanchored path))

/-- The path of a stored file leads to a name in a directory, and the files with other names or in
other directories are left alone. -/
theorem exists_place_of_store :
    ∃ place name, (d.store path contents).2.locate path = .ok (place ++ [name]) ∧
      ∀ other (p : String × ByteArray → Bool), (other = place → ∀ old, p (name, old) = false) →
        ((d.store path contents).2.root.filesAt other).filter p =
          (d.root.filesAt other).filter p := by
  obtain ⟨place, name, hlocate, hfiles⟩ := exists_place_of_writeFile (exists_made_of_store h).2
    (keepsWays_writeFile h hanchored path)
  refine ⟨place, name, hlocate, fun other p hp => ?_⟩
  rw [hfiles other p hp, filesAt_makeDirectories]

end Store

end Disk

/-! ### Loading a folder again -/

/-- Whether a file of a folder is read: the path to it can be followed, and it has the extension of
schema files. -/
def isRead (folder : Path) (file : String × ByteArray) : Bool :=
  (folder.join ⟨file.1⟩).fault?.isNone && Path.extensionOf file.1 == some Document.fileExtension

theorem filterMap_schemaFile?_withinReach (folder : Path) (entries : List (String × FileTree)) :
    (withinReach folder entries).filterMap schemaFile? =
      (entries.filterMap FileTree.file?).filter (isRead folder) := by
  rw [withinReach, List.filterMap_filter, List.filter_filterMap]
  refine List.filterMap_congr fun entry _ => ?_
  obtain ⟨name, t⟩ := entry
  cases t with
  | directory inner => split <;> rfl
  | file contents =>
    simp only [schemaFile?, FileTree.file?, isRead, Option.filter_some, Bool.and_eq_true,
      beq_iff_eq]
    exact (ite_and ..).symm

namespace Disk

open FileTree (KeepsWays reachable_origin walk_of_keepsWays)

variable {d after : Disk} {folder : Path} {entries : List (String × FileTree)}

theorem entries_eq_ok_iff :
    d.entries folder = .ok entries ↔
      ∃ place, d.locate folder = .ok place ∧ d.root.reached place = .directory entries := by
  unfold Disk.entries find
  cases d.locate folder with
  | error e => simp
  | ok place =>
    cases hreached : d.root.reached place <;> simp [hreached]

theorem filesAt_of_reached {place : List String} (h : d.root.reached place = .directory entries) :
    d.root.filesAt place = entries.filterMap FileTree.file? := by
  unfold FileTree.reached at h
  cases hplace : d.root.get? place with
  | none =>
    rw [hplace] at h
    cases h
    rw [FileTree.filesAt, hplace]
    rfl
  | some t =>
    rw [hplace] at h
    cases h
    exact FileTree.filesAt_of_get? hplace

/-- A folder is found where it was, if every way is kept. -/
theorem exists_entries_of_keepsWays (hcurrent : after.current = d.current)
    (hkeeps : KeepsWays (d.origin folder) d.root after.root)
    (hentries : d.entries folder = .ok entries) :
    ∃ place others, after.locate folder = .ok place ∧ after.entries folder = .ok others ∧
      d.root.filesAt place = entries.filterMap FileTree.file? ∧
      after.root.filesAt place = others.filterMap FileTree.file? := by
  obtain ⟨place, hlocate, hreached⟩ := entries_eq_ok_iff.mp hentries
  obtain ⟨hfault, hwalk⟩ := walk_of_locate hlocate
  obtain ⟨hafter, hreachable⟩ := walk_of_keepsWays hkeeps (reachable_origin _ _) hwalk
  have hdirectory : (d.root.reached place).isDirectory = true := by
    rw [hreached]
    rfl
  have hstays : (after.root.reached place).isDirectory = true :=
    FileTree.isDirectory_reached_iff.mpr
      (hkeeps.not_file hreachable (FileTree.isDirectory_reached_iff.mp hdirectory))
  obtain ⟨others, hothers⟩ : ∃ others, after.root.reached place = .directory others := by
    cases hfound : after.root.reached place with
    | file contents =>
      rw [hfound] at hstays
      cases hstays
    | directory others => exact ⟨others, rfl⟩
  have horigin : after.origin folder = d.origin folder := by rw [origin, origin, hcurrent]
  have hlocateAfter : after.locate folder = .ok place := by
    rw [locate, hfault, horigin, hafter]
    dsimp only
    rw [hothers]
  exact ⟨place, others, hlocateAfter, entries_eq_ok_iff.mpr ⟨place, hlocateAfter, hothers⟩,
    filesAt_of_reached hreached, filesAt_of_reached hothers⟩

end Disk

theorem isRead_eq_false {name : String} (h : ¬ IsSchemaName name) (folder : Path)
    (contents : ByteArray) : isRead folder (name, contents) = false := by
  have hextension : Path.extensionOf name ≠ some Document.fileExtension :=
    fun heq => h (extensionOf_eq_fileExtension_iff.mp heq)
  rw [isRead, beq_false_of_ne hextension, Bool.and_false]

theorem exists_entries_of_loadFolder {folder : Path} {disk : Disk} {documents : List Document}
    (h : (loadFolder folder disk).result = .ok documents) :
    ∃ entries, disk.entries folder = .ok entries := by
  unfold loadFolder at h
  cases hentries : disk.entries folder with
  | error e =>
    rw [hentries] at h
    cases h
  | ok entries => exact ⟨entries, rfl⟩

/-- What is loaded from a folder is determined by the files that are read. -/
theorem loadFolder_congr {before after : Disk} {folder : Path}
    {entries others : List (String × FileTree)} (hbefore : before.entries folder = .ok entries)
    (hafter : after.entries folder = .ok others)
    (h : (others.filterMap FileTree.file?).filter (isRead folder) =
      (entries.filterMap FileTree.file?).filter (isRead folder)) :
    loadFolder folder after = loadFolder folder before := by
  have hschemas : schemasAmong (withinReach folder others) =
      schemasAmong (withinReach folder entries) := by
    rw [schemasAmong, schemasAmong, filterMap_schemaFile?_withinReach,
      filterMap_schemaFile?_withinReach, h]
  simp only [loadFolder, hbefore, hafter, Except.map, loadEntries, hschemas]

/-- Storing a file changes nothing about what is loaded from a folder, unless the file is a schema
file directly inside the folder. -/
theorem loadFolder_of_store {disk : Disk} {path folder : Path} {contents : ByteArray}
    {documents : List Document} (hstored : (disk.store path contents).1 = .ok ())
    (hanchored : disk.root.entryAt disk.current = none → (disk.store path contents).2.IsAnchored)
    (hload : (loadFolder folder disk).result = .ok documents)
    (hout : ∀ place name, (disk.store path contents).2.locate folder = .ok place →
      (disk.store path contents).2.locate path = .ok (place ++ [name]) → ¬ IsSchemaName name) :
    loadFolder folder (disk.store path contents).2 = loadFolder folder disk := by
  obtain ⟨entries, hentries⟩ := exists_entries_of_loadFolder hload
  obtain ⟨around, name, hlocate, hfiles⟩ := Disk.exists_place_of_store hstored hanchored
  obtain ⟨place, others, hfolder, hothers, hbefore, hafter⟩ :=
    Disk.exists_entries_of_keepsWays (Disk.current_store disk path contents)
      (Disk.keepsWays_store hstored hanchored folder) hentries
  refine loadFolder_congr hentries hothers ?_
  rw [← hbefore, ← hafter]
  refine hfiles place _ fun heq old => isRead_eq_false ?_ _ old
  exact hout place name hfolder (heq ▸ hlocate)

/-! ### Running again -/

/-- A run that succeeds has prepared its documents and stored their bundle. -/
theorem exists_stored_of_runOnDisk {settings : Settings} {disk : Disk} {path : Path}
    (h : (runOnDisk settings disk).1.result = .ok path) :
    ∃ documents, (prepare settings (loadFolder settings.schemaDir disk)).result = .ok documents ∧
      path = settings.target ∧
      (disk.store settings.target (bundle settings.banner documents).toUTF8).1 = .ok () ∧
      (runOnDisk settings disk).2 =
        (disk.store settings.target (bundle settings.banner documents).toUTF8).2 := by
  obtain ⟨e, -, hresult, -⟩ | ⟨documents, hprepare, hresult, hstate⟩ :=
    runOn_cases settings (loadFolder settings.schemaDir disk) diskWriter disk
  · cases hresult.symm.trans h
  · rw [result_diskWriter] at hresult
    rw [state_diskWriter] at hstate
    have hok := hresult.symm.trans h
    cases hstored : (disk.store settings.target (bundle settings.banner documents).toUTF8).1 with
    | error cause =>
      rw [hstored] at hok
      cases hok
    | ok =>
      rw [hstored] at hok
      exact ⟨documents, hprepare, (Except.ok.inj hok).symm, hstored, hstate⟩

/-- A run depends on the state only through the writer. -/
theorem runOn_congr_writer {σ : Type} {settings : Settings}
    {loaded : Trace RunError (List Document)} {writer : Writer σ} {state other : σ}
    {documents : List Document} (hprepare : (prepare settings loaded).result = .ok documents)
    (h : writer settings.target (bundle settings.banner documents) other =
      writer settings.target (bundle settings.banner documents) state) :
    runOn settings loaded writer other = runOn settings loaded writer state := by
  simp only [runOn, hprepare, h]

theorem diskWriter_of_store {path : Path} {text : String} {disk : Disk}
    (h : (disk.store path text.toUTF8).1 = .ok ()) :
    diskWriter path text disk =
      (.report [.wrote text.utf8ByteSize path], (disk.store path text.toUTF8).2) := by
  unfold diskWriter
  dsimp only
  rw [h]

/-- Writing to a disk again reports the same and changes nothing. -/
theorem diskWriter_again {path : Path} {text : String} {disk : Disk}
    (hstored : (disk.store path text.toUTF8).1 = .ok ())
    (hanchored : disk.root.entryAt disk.current = none →
      (disk.store path text.toUTF8).2.IsAnchored) :
    diskWriter path text (disk.store path text.toUTF8).2 = diskWriter path text disk := by
  have hagain := Disk.store_again hstored hanchored
  rw [diskWriter_of_store hstored]
  exact (diskWriter_of_store (congrArg Prod.fst hagain)).trans (by rw [hagain])

/-- **Running again.** Let a run succeed with its output anywhere but in a schema file directly
inside the schema folder. Then a run on the disk that it leaves reports the same, succeeds with the
same path and leaves this disk as it is. If the current directory was taken away before, this asks
that the output was not put in its place, where it would be mistaken for the directory. -/
theorem runOnDisk_again {settings : Settings} {disk : Disk} {path : Path}
    (hrun : (runOnDisk settings disk).1.result = .ok path)
    (hout : ∀ folder name, (runOnDisk settings disk).2.locate settings.schemaDir = .ok folder →
      (runOnDisk settings disk).2.locate path = .ok (folder ++ [name]) → ¬ IsSchemaName name)
    (hcurrent : disk.root.entryAt disk.current = none → (runOnDisk settings disk).2.IsAnchored) :
    runOnDisk settings (runOnDisk settings disk).2 = runOnDisk settings disk := by
  obtain ⟨documents, hprepare, rfl, hstored, hstate⟩ := exists_stored_of_runOnDisk hrun
  rw [hstate] at hout hcurrent ⊢
  have hload := loadFolder_of_store hstored hcurrent (loaded_of_prepare hprepare) hout
  rw [runOnDisk, hload]
  exact runOn_congr_writer hprepare (diskWriter_again hstored hcurrent)

/-- A run that makes a directory with a schema file name next to the schema file that it reads. -/
theorem runOnDisk_again_inside_folder :
    let settings : Settings :=
      { schemaDir := ⟨"s"⟩, outDir := ⟨"s/d.avsc"⟩, outFile := ⟨"a.ts"⟩ }
    let disk (entries : List (String × FileTree)) : Disk :=
      ⟨.directory [("s", .directory entries)], []⟩
    let first : Disk := disk [("a.avsc", .file "null".toUTF8)]
    (runOnDisk settings first).1.result = .ok ⟨"s/d.avsc/a.ts"⟩ ∧
      (runOnDisk settings first).2 ≠ first ∧
      runOnDisk settings (runOnDisk settings first).2 = runOnDisk settings first := by
  intro settings disk first
  have hload : (loadFolder ⟨"s"⟩ first).result = .ok [⟨"a.avsc", .unknown .null⟩] := by
    have hentries (entries) : (disk entries).entries ⟨"s"⟩ = .ok entries := rfl
    have hreach : ((⟨"s"⟩ : Path).join ⟨"a.avsc"⟩).fault? = none := by decide
    have hextension : Path.extensionOf "a.avsc" = some Document.fileExtension := by decide
    have hfiles (old : ByteArray) :
        (withinReach ⟨"s"⟩ [("a.avsc", .file old)]).filterMap schemaFile? = [("a.avsc", old)] := by
      simp [withinReach, hreach, schemaFile?, hextension]
    have htext : Disk.decodeText "null".toUTF8 = .ok "null" := rfl
    have hjson : Json.parse "null" = .ok .null := rfl
    have hparse : Schema.parse "null" = .ok (.unknown .null) := by
      simp [Schema.parse, hjson, Schema.ofJson]
    simp only [loadFolder, first, hentries, Except.map, loadEntries, schemasAmong, hfiles,
      List.mergeSort_singleton, Trace.report_andThen, readDocuments, readDocument, htext,
      Document.parse, hparse]
    rfl
  have hstored (old contents : ByteArray) :
      (disk [("a.avsc", .file old)]).store ⟨"s/d.avsc/a.ts"⟩ contents =
        (.ok (), disk [("a.avsc", .file old),
          ("d.avsc", .directory [("a.ts", .file contents)])]) := rfl
  have hfolder (entries) : (disk entries).locate ⟨"s"⟩ = .ok ["s"] := rfl
  have hplace (old contents : ByteArray) :
      (disk [("a.avsc", .file old), ("d.avsc", .directory [("a.ts", .file contents)])]).locate
        ⟨"s/d.avsc/a.ts"⟩ = .ok ["s", "d.avsc", "a.ts"] := rfl
  have htarget : settings.target = ⟨"s/d.avsc/a.ts"⟩ := by decide
  have hlenient : settings.strict = false := rfl
  obtain ⟨hresult, hstate⟩ := runOnDisk_of_loadFolder hlenient hload
  rw [htarget, hstored] at hresult hstate
  refine ⟨hresult, ?_, runOnDisk_again hresult ?_ ?_⟩
  · rw [hstate]
    simp [first, disk]
  · rw [hstate]
    intro folder name hlocate hpath
    cases (hfolder _).symm.trans hlocate
    cases (hplace _ _).symm.trans hpath
  · intro hgone
    cases hgone

end AvroTypings
