import AvroTypings.Proofs.Growth
import AvroTypings.Run.Basic

/-!
# What a run changes on a disk

A run reads a folder, checks and bundles what it has read, makes the directories that the output
lies in and writes the output. It may stop at any point. This file says what has changed by then:
nothing at all unless the output was to be written, directories at most if the writing failed, and
otherwise directories at most besides the output itself.

## Main results

* `runOn_cases`: a run fails before the writer is asked, or ends as the writer does.
* `Disk.exists_of_writeFile`: writing a file changes one place, and the path leads there.
* `Disk.store_error`, `Disk.store_ok`: storing a file changes that place and adds directories.
* `runOnDisk_changes_only_output`: what a run changes, by the way it ends.
-/

namespace AvroTypings

/-! ### Runs with any writer -/

/-- A run fails before the writer is asked, and then leaves the state alone; or all documents were
loaded and it ends as the writer does, with the state that the writer leaves. -/
theorem runOn_cases {σ : Type} (settings : Settings) (loaded : Trace RunError (List Document))
    (writer : Writer σ) (state : σ) :
    (∃ e, (prepare settings loaded).result = .error e ∧
      (runOn settings loaded writer state).1.result = .error e ∧
      (runOn settings loaded writer state).2 = state) ∨
    (∃ documents, (prepare settings loaded).result = .ok documents ∧
      (runOn settings loaded writer state).1.result =
        (writer settings.target (bundle settings.banner documents) state).1.result.map
          (fun _ => settings.target) ∧
      (runOn settings loaded writer state).2 =
        (writer settings.target (bundle settings.banner documents) state).2) := by
  cases hprepare : (prepare settings loaded).result with
  | error e => exact .inl ⟨e, rfl, by simp [runOn, hprepare]⟩
  | ok documents =>
    refine .inr ⟨documents, rfl, ?_, by simp [runOn, hprepare]⟩
    simp only [runOn, Trace.andThen, hprepare]
    cases (writer settings.target (bundle settings.banner documents) state).1.result <;> rfl

/-- A run that succeeds has prepared its documents, and its output was handed to the writer. -/
theorem exists_prepared_of_runOn {σ : Type} {settings : Settings}
    {loaded : Trace RunError (List Document)} {writer : Writer σ} {state : σ} {path : Path}
    (h : (runOn settings loaded writer state).1.result = .ok path) :
    ∃ documents, (prepare settings loaded).result = .ok documents ∧ path = settings.target ∧
      (runOn settings loaded writer state).2 =
        (writer settings.target (bundle settings.banner documents) state).2 := by
  obtain ⟨e, -, hresult, -⟩ | ⟨documents, hprepare, hresult, hstate⟩ :=
    runOn_cases settings loaded writer state
  · cases hresult.symm.trans h
  · refine ⟨documents, hprepare, ?_, hstate⟩
    rw [hresult] at h
    cases hwritten : (writer settings.target (bundle settings.banner documents) state).1.result with
    | error e =>
      rw [hwritten] at h
      cases h
    | ok =>
      rw [hwritten] at h
      exact (Except.ok.inj h).symm

/-- The documents of a run are those that were loaded. -/
theorem loaded_of_prepare {settings : Settings} {loaded : Trace RunError (List Document)}
    {documents : List Document} (h : (prepare settings loaded).result = .ok documents) :
    loaded.result = .ok documents := by
  obtain ⟨loadedDocuments, hloaded, h⟩ := Trace.result_andThen_eq_ok.mp h
  obtain ⟨-, -, h⟩ := Trace.result_andThen_eq_ok.mp h
  cases h
  exact hloaded

/-! ### Writing to a disk -/

namespace Disk

variable {d written : Disk} {path : Path} {contents : ByteArray}

theorem current_makeDirectories (d : Disk) (path : Path) :
    (d.makeDirectories path).2.current = d.current := by
  unfold makeDirectories
  split
  · rfl
  · split <;> rfl

theorem onlyAddsDirectories_makeDirectories (d : Disk) (path : Path) :
    d.root.OnlyAddsDirectories (d.makeDirectories path).2.root := by
  unfold makeDirectories
  split
  · exact .refl d.root
  · split
    · exact .refl d.root
    · exact FileTree.onlyAddsDirectories_makeDirectories d.root _ _

/-- How a file comes to be written: the path ends in a name, the directory that the file lies in is
reached, and no directory has the name. -/
theorem exists_parent_of_writeFile (h : d.writeFile path contents = .ok written) :
    ∃ front name place entries, path.fault? = none ∧ path.endsInSlash = false ∧
      path.segments = front ++ [name] ∧
      (name ≠ "." ∧ name ≠ ".." ∧ FileTree.exceedsLimit name = false) ∧
      d.root.walk (d.origin path) front = .ok place ∧
      d.root.get? place = some (.directory entries) ∧
      (∀ inner, entries.lookup name ≠ some (.directory inner)) ∧
      written = { d with root := d.root.put place name (.file contents) } := by
  unfold writeFile at h
  split at h
  · cases h
  · cases h
  · next name hfault hname =>
    split at h
    · cases h
    · next place found hparent =>
      split at h
      · cases h
      · next hkind =>
        cases found with
        | none => cases h
        | some entries =>
          dsimp only at h
          split at h
          · cases h
          · next hlimit =>
            obtain ⟨hwalk, hdir⟩ := FileTree.parentOf_eq_ok_some hparent
            simp only [Bool.or_eq_true, decide_eq_true_eq, not_or, Bool.not_eq_true] at hkind hlimit
            obtain ⟨⟨hhere, hup⟩, hslash⟩ := hkind
            obtain ⟨front, hfront⟩ := List.getLast?_eq_some_iff.mp hname
            rw [hfront, List.dropLast_concat] at hwalk
            split at h
            · cases h
            · next hfree =>
              cases h
              exact ⟨front, name, place, entries, hfault, hslash, hfront, ⟨hhere, hup, hlimit⟩,
                hwalk, hdir, hfree, rfl⟩

theorem entryAt_origin_ne_none (path : Path) (h : d.root.entryAt d.current ≠ none) :
    d.root.entryAt (d.origin path) ≠ none := by
  unfold origin
  split
  · simp [FileTree.entryAt]
  · exact h

/-- A path that does not end in a slash leads where its segments do. -/
theorem locate_of_walk {place : List String} (hfault : path.fault? = none)
    (hslash : path.endsInSlash = false)
    (hwalk : d.root.walk (d.origin path) path.segments = .ok place) :
    d.locate path = .ok place := by
  rw [locate, hfault, hwalk]
  dsimp only
  split
  · rw [hslash, if_neg Bool.false_ne_true]
  · rfl

/-- Writing a file changes the place that the path leads to afterwards. If the current directory was
taken away, a file may come to stand in its place; only then a relative path leads elsewhere. -/
theorem exists_of_writeFile (h : d.writeFile path contents = .ok written) :
    written.current = d.current ∧
    ∃ place, FileTree.WritesFileAt place contents d.root written.root ∧
      (d.root.entryAt d.current ≠ none → written.locate path = .ok place) := by
  obtain ⟨front, name, place, entries, hfault, hslash, hfront, hname, hwalk, hdir, hfree, rfl⟩ :=
    exists_parent_of_writeFile h
  have hwrites : FileTree.WritesFileAt (place ++ [name]) contents d.root _ :=
    FileTree.writesFileAt_put hdir hfree
  refine ⟨rfl, place ++ [name], hwrites, fun hcurrent => locate_of_walk hfault hslash ?_⟩
  have hkeeps := FileTree.keepsWays_of_grows hwrites.grows (entryAt_origin_ne_none path hcurrent)
  rw [hfront]
  exact FileTree.walk_put hkeeps hname hwalk hdir

/-- Storing a file either ends as it was after the directories were made, or writes the file. -/
theorem store_cases (d : Disk) (path : Path) (contents : ByteArray) :
    (∃ e, (d.store path contents).1 = .error e ∧
      (d.store path contents).2 = (d.makeDirectories path.parent).2) ∨
    (d.store path contents).1 = .ok () ∧
      (d.makeDirectories path.parent).2.writeFile path contents =
        .ok (d.store path contents).2 := by
  unfold store
  split
  · next e made hmade => exact .inl ⟨e, rfl, by rw [hmade]⟩
  · next made hmade =>
    rw [hmade]
    split
    · next written hwritten => exact .inr ⟨rfl, hwritten⟩
    · next e _ => exact .inl ⟨e, rfl, rfl⟩

theorem current_store (d : Disk) (path : Path) (contents : ByteArray) :
    (d.store path contents).2.current = d.current := by
  obtain ⟨e, -, hstored⟩ | ⟨-, hwritten⟩ := store_cases d path contents
  · rw [hstored, current_makeDirectories]
  · rw [(exists_of_writeFile hwritten).1, current_makeDirectories]

theorem store_error {e : IoError} (h : (d.store path contents).1 = .error e) :
    d.root.OnlyAddsDirectories (d.store path contents).2.root := by
  obtain ⟨-, -, hstored⟩ | ⟨hok, -⟩ := store_cases d path contents
  · rw [hstored]
    exact onlyAddsDirectories_makeDirectories d path.parent
  · cases h.symm.trans hok

theorem store_ok (h : (d.store path contents).1 = .ok ()) :
    ∃ place, FileTree.WritesFileAt place contents d.root (d.store path contents).2.root ∧
      (d.root.entryAt d.current ≠ none → (d.store path contents).2.locate path = .ok place) := by
  obtain ⟨e, herror, -⟩ | ⟨-, hwritten⟩ := store_cases d path contents
  · cases h.symm.trans herror
  · have hmade := onlyAddsDirectories_makeDirectories d path.parent
    obtain ⟨-, place, hwrites, hlocate⟩ := exists_of_writeFile hwritten
    refine ⟨place, hmade.trans_writesFileAt hwrites, fun hcurrent => hlocate ?_⟩
    rw [current_makeDirectories]
    exact (hmade d.current).present hcurrent

end Disk

/-! ### Runs on a disk -/

/-- The writer of a disk fails exactly if the file cannot be stored, and only with an error about
writing. -/
theorem result_diskWriter (path : Path) (text : String) (disk : Disk) :
    (diskWriter path text disk).1.result =
      (disk.store path text.toUTF8).1.mapError (.write path) := by
  unfold diskWriter
  generalize disk.store path text.toUTF8 = stored
  obtain ⟨result, after⟩ := stored
  cases result <;> rfl

theorem state_diskWriter (path : Path) (text : String) (disk : Disk) :
    (diskWriter path text disk).2 = (disk.store path text.toUTF8).2 := by
  unfold diskWriter
  generalize disk.store path text.toUTF8 = stored
  obtain ⟨result, after⟩ := stored
  cases result <;> rfl

/-- A run on a disk fails before it writes, and then leaves the disk alone; or all documents were
loaded and it ends as storing their typings does. -/
theorem runOnDisk_cases (settings : Settings) (disk : Disk) :
    (∃ e, (runOnDisk settings disk).1.result = .error e ∧ (runOnDisk settings disk).2 = disk) ∨
    (∃ documents, (loadFolder settings.schemaDir disk).result = .ok documents ∧
      (runOnDisk settings disk).1.result =
        ((disk.store settings.target (bundle settings.banner documents).toUTF8).1.mapError
          (RunError.write settings.target)).map (fun _ => settings.target) ∧
      (runOnDisk settings disk).2 =
        (disk.store settings.target (bundle settings.banner documents).toUTF8).2) := by
  obtain ⟨e, -, hresult, hstate⟩ | ⟨documents, hprepare, hresult, hstate⟩ :=
    runOn_cases settings (loadFolder settings.schemaDir disk) diskWriter disk
  · exact .inl ⟨e, hresult, hstate⟩
  · rw [result_diskWriter] at hresult
    rw [state_diskWriter] at hstate
    exact .inr ⟨documents, loaded_of_prepare hprepare, hresult, hstate⟩

/-- **What a run changes.** The current directory stays. A run that fails before it writes leaves
the disk as it was. A run that fails to write keeps every file and directory, and adds directories
at most. A run that succeeds has the typings of the loaded documents in the file that its path leads
to, keeps every other file and every directory, and adds directories at most. The path leads there
provided that the current directory was not taken away before the run. -/
theorem runOnDisk_changes_only_output (settings : Settings) (disk : Disk) :
    (runOnDisk settings disk).2.current = disk.current ∧
    (∀ e, (runOnDisk settings disk).1.result = .error e → (∀ path cause, e ≠ .write path cause) →
      (runOnDisk settings disk).2 = disk) ∧
    (∀ path cause, (runOnDisk settings disk).1.result = .error (.write path cause) →
      disk.root.OnlyAddsDirectories (runOnDisk settings disk).2.root) ∧
    (∀ path, (runOnDisk settings disk).1.result = .ok path →
      ∃ documents place, (loadFolder settings.schemaDir disk).result = .ok documents ∧
        FileTree.WritesFileAt place (bundle settings.banner documents).toUTF8 disk.root
          (runOnDisk settings disk).2.root ∧
        (disk.root.entryAt disk.current ≠ none →
          (runOnDisk settings disk).2.locate path = .ok place)) := by
  obtain ⟨e, hresult, hstate⟩ | ⟨documents, hloaded, hresult, hstate⟩ :=
    runOnDisk_cases settings disk
  · rw [hstate, hresult]
    exact ⟨rfl, fun _ _ _ => rfl, fun _ _ _ => .refl disk.root, nofun⟩
  · rw [hstate, hresult]
    refine ⟨Disk.current_store .., ?_⟩
    cases hstored : (disk.store settings.target (bundle settings.banner documents).toUTF8).1 with
    | error cause =>
      refine ⟨fun e he hwrite => ?_, fun _ _ _ => Disk.store_error hstored, nofun⟩
      exact absurd (Except.error.inj he).symm (hwrite settings.target cause)
    | ok =>
      refine ⟨nofun, nofun, fun path hpath => ?_⟩
      cases hpath
      obtain ⟨place, hwrites, hlocate⟩ := Disk.store_ok hstored
      exact ⟨documents, place, hloaded, hwrites, hlocate⟩

end AvroTypings
