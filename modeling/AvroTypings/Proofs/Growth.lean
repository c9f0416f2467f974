import AvroTypings.Proofs.Places

/-!
# Growing trees

Making directories and writing files takes no directory away. This file says what else is left
alone: the files directly inside each directory, in their order, and the ways that paths take.

## Main definitions

* `FileTree.filesAt`: the files directly inside a directory.
* `FileTree.KeepsWays`: every walk from a place still leads where it did.

## Main results

* `FileTree.filesAt_makeDirectories`, `FileTree.filesAt_put_file`: the files that are left alone.
* `FileTree.put_put`: an entry is put once and for all.
* `FileTree.walk_of_keepsWays`: walks in a tree that has grown.
* `FileTree.makeDirectories_of_leads`: a directory that is there is not made again.
-/

namespace AvroTypings

namespace FileTree

/-! ### The files of a directory -/

/-- A file with its name, and nothing for a directory. -/
def file? : String × FileTree → Option (String × ByteArray)
  | (name, file contents) => some (name, contents)
  | (_, directory _) => none

/-- The files directly inside the directory at a place. -/
def filesAt (root : FileTree) (place : List String) : List (String × ByteArray) :=
  match root.get? place with
  | some (directory entries) => entries.filterMap file?
  | _ => []

section FilesAt

variable {root : FileTree} {place other : List String} {name : String}
  {entries : List (String × FileTree)}

theorem filesAt_of_get? (h : root.get? place = some (.directory entries)) :
    root.filesAt place = entries.filterMap file? := by
  rw [filesAt, h]

theorem filesAt_of_not_directory (h : ∀ inner, root.get? place ≠ some (.directory inner)) :
    root.filesAt place = [] := by
  unfold filesAt
  split
  · next inner hplace => exact absurd hplace (h inner)
  · rfl

theorem filesAt_congr {t : FileTree} {rest : List String}
    (h : root.get? place = t.get? rest) : root.filesAt place = t.filesAt rest := by
  rw [filesAt, filesAt, h]

theorem file?_eq_of_entry {t t' : FileTree} (h : t.entry = t'.entry) :
    file? (name, t) = file? (name, t') := by
  cases t <;> cases t' <;> cases h <;> rfl

theorem filterMap_file?_modifyEntry {f : FileTree → FileTree} (hf : ∀ t, (f t).entry = t.entry) :
    (modifyEntry name f entries).filterMap file? = entries.filterMap file? := by
  induction entries with
  | nil => rfl
  | cons first entries ih =>
    obtain ⟨key, t⟩ := first
    unfold modifyEntry
    split
    · rw [List.filterMap_cons, List.filterMap_cons, file?_eq_of_entry (hf t)]
    · rw [List.filterMap_cons, List.filterMap_cons, ih]

/-- A change that keeps each file and each directory as such does so below a place. -/
theorem entry_update {f : FileTree → FileTree} (hf : ∀ t, (f t).entry = t.entry)
    (root : FileTree) (place : List String) : (root.update place f).entry = root.entry := by
  cases place with
  | nil => exact hf root
  | cons key place => cases root <;> rfl

theorem filesAt_cons (entries : List (String × FileTree)) (first : String) (rest : List String) :
    (directory entries).filesAt (first :: rest) =
      ((entries.lookup first).map fun child => child.filesAt rest).getD [] := by
  rw [filesAt, get?]
  cases entries.lookup first <;> rfl

/-- Putting an entry into a directory leaves alone the files of the other directories that are not
inside the entry. -/
theorem filesAt_put_of_not_below (hne : other ≠ place) (h : ¬ (place ++ [name]) <+: other)
    (t : FileTree) : (root.put place name t).filesAt other = root.filesAt other := by
  induction place generalizing root other with
  | nil =>
    cases root with
    | file contents => rfl
    | directory entries =>
      cases other with
      | nil => exact absurd rfl hne
      | cons first rest =>
        have hfirst : first ≠ name := by
          rintro rfl
          exact h (List.cons_prefix_cons.mpr ⟨rfl, List.nil_prefix⟩)
        rw [put, update, filesAt_cons, filesAt_cons, lookup_setEntry_of_ne hfirst]
  | cons key place ih =>
    cases root with
    | file contents => rfl
    | directory entries =>
      cases other with
      | nil =>
        -- an entry of this directory changes inside, but stays a directory
        rw [put, update]
        refine filterMap_file?_modifyEntry (entry_update (fun t => ?_) · place)
        cases t <;> rfl
      | cons first rest =>
        rw [put, update, filesAt_cons, filesAt_cons]
        by_cases hfirst : first = key
        · subst hfirst
          have hrest : rest ≠ place := fun heq => hne (congrArg (first :: ·) heq)
          have hbelow : ¬ (place ++ [name]) <+: rest := fun hrest =>
            h (List.cons_prefix_cons.mpr ⟨rfl, hrest⟩)
          rw [lookup_modifyEntry_self]
          cases entries.lookup first with
          | none => rfl
          | some child => exact ih hrest hbelow
        · rw [lookup_modifyEntry_of_ne hfirst]

theorem get?_put_self (h : root.get? place = some (.directory entries)) (t : FileTree) :
    (root.put place name t).get? place = some (.directory (setEntry name t entries)) :=
  calc (root.put place name t).get? place
    _ = (root.put place name t).get? (place ++ []) := by rw [List.append_nil]
    _ = (directory (setEntry name t entries)).get? [] := get?_update_append h _ []
    _ = some (.directory (setEntry name t entries)) := get?_nil _

/-- Putting an entry with no files inside where no directory was leaves the files of all other
directories alone. -/
theorem filesAt_put_of_ne (h : root.get? place = some (.directory entries))
    (hfree : ∀ inner, entries.lookup name ≠ some (.directory inner)) {t : FileTree}
    (ht : ∀ rest, t.filesAt rest = []) (hne : other ≠ place) :
    (root.put place name t).filesAt other = root.filesAt other := by
  by_cases hbelow : (place ++ [name]) <+: other
  · obtain ⟨rest, rfl⟩ := hbelow
    rw [List.append_assoc, List.singleton_append, filesAt_congr (get?_put_below h t rest), ht]
    refine (filesAt_of_not_directory fun inner hinner => ?_).symm
    rw [get?_append, h, Option.bind_some, get?] at hinner
    cases hold : entries.lookup name with
    | none => simp [hold] at hinner
    | some old =>
      rw [hold, Option.bind_some] at hinner
      cases old with
      | directory inner => exact hfree inner hold
      | file contents => cases rest <;> cases hinner
  · exact filesAt_put_of_not_below hne hbelow t

theorem filterMap_file?_setEntry_directory (hname : entries.lookup name = none)
    (inner : List (String × FileTree)) :
    (setEntry name (.directory inner) entries).filterMap file? = entries.filterMap file? := by
  induction entries with
  | nil => rfl
  | cons first entries ih =>
    obtain ⟨key, t⟩ := first
    rw [List.lookup_cons] at hname
    split at hname
    · cases hname
    · next hkey =>
      have hne : key ≠ name := fun heq => by simp [heq] at hkey
      rw [setEntry, if_neg hne, List.filterMap_cons, List.filterMap_cons, ih hname]

/-- Files with other names are kept when an entry is set. -/
theorem filter_filterMap_file?_setEntry {p : String × ByteArray → Bool}
    (hp : ∀ contents, p (name, contents) = false) (t : FileTree) :
    ((setEntry name t entries).filterMap file?).filter p = (entries.filterMap file?).filter p := by
  have hfirst (t : FileTree) (others : List (String × FileTree)) :
      (((name, t) :: others).filterMap file?).filter p = (others.filterMap file?).filter p := by
    cases t with
    | file contents => simp [file?, hp contents]
    | directory inner => rfl
  induction entries with
  | nil => exact hfirst t []
  | cons first entries ih =>
    obtain ⟨key, old⟩ := first
    unfold setEntry
    split
    · next heq =>
      subst heq
      rw [hfirst, hfirst]
    · rw [List.filterMap_cons, List.filterMap_cons]
      split
      · exact ih
      · rw [List.filter_cons, List.filter_cons, ih]

/-- Putting an empty directory where nothing was leaves all files alone. -/
theorem filesAt_put_directory (h : root.get? place = some (.directory entries))
    (hname : entries.lookup name = none) (other : List String) :
    (root.put place name (.directory [])).filesAt other = root.filesAt other := by
  by_cases hplace : other = place
  · subst hplace
    rw [filesAt_of_get? h, filesAt_of_get? (get?_put_self h _),
      filterMap_file?_setEntry_directory hname]
  · refine filesAt_put_of_ne h (by simp [hname]) (fun rest => ?_) hplace
    cases rest <;> rfl

/-- Putting a file where no directory was leaves all files alone, but for those of its name in its
own directory. -/
theorem filesAt_put_file (h : root.get? place = some (.directory entries))
    (hfree : ∀ inner, entries.lookup name ≠ some (.directory inner)) (contents : ByteArray)
    {p : String × ByteArray → Bool} (hp : other = place → ∀ old, p (name, old) = false) :
    ((root.put place name (.file contents)).filesAt other).filter p =
      (root.filesAt other).filter p := by
  by_cases hplace : other = place
  · subst hplace
    rw [filesAt_of_get? h, filesAt_of_get? (get?_put_self h _),
      filter_filterMap_file?_setEntry (hp rfl)]
  · refine congrArg (List.filter p) (filesAt_put_of_ne h hfree (fun rest => ?_) hplace)
    cases rest <;> rfl

theorem filesAt_makeDirectories (root : FileTree) (origin : List String)
    (chain : List (List String)) (other : List String) :
    (root.makeDirectories origin chain).2.filesAt other = root.filesAt other := by
  refine @makeDirectories_induction (fun before after => after.filesAt other = before.filesAt other)
    (fun _ => rfl) (fun hab hbc => hbc.trans hab) ?_ root origin chain
  exact fun hdir hfree => filesAt_put_directory hdir hfree other

end FilesAt

/-! ### Putting an entry twice -/

theorem modifyEntry_modifyEntry {name : String} (f g : FileTree → FileTree)
    (entries : List (String × FileTree)) :
    modifyEntry name g (modifyEntry name f entries) =
      modifyEntry name (fun t => g (f t)) entries := by
  induction entries with
  | nil => rfl
  | cons first entries ih =>
    obtain ⟨key, t⟩ := first
    by_cases hkey : key = name
    · simp [modifyEntry, hkey]
    · simp [modifyEntry, hkey, ih]

theorem update_update (root : FileTree) (place : List String) (f g : FileTree → FileTree) :
    (root.update place f).update place g = root.update place fun t => g (f t) := by
  induction place generalizing root with
  | nil => rfl
  | cons name place ih =>
    cases root with
    | file contents => rfl
    | directory entries =>
      rw [update, update, update, modifyEntry_modifyEntry]
      simp only [ih]

theorem setEntry_setEntry (name : String) (t : FileTree) (entries : List (String × FileTree)) :
    setEntry name t (setEntry name t entries) = setEntry name t entries := by
  induction entries with
  | nil => simp [setEntry]
  | cons first entries ih =>
    obtain ⟨key, old⟩ := first
    by_cases hkey : key = name
    · simp [setEntry, hkey]
    · simp [setEntry, hkey, ih]

/-- Putting an entry a second time changes nothing. -/
theorem put_put (root : FileTree) (place : List String) (name : String) (t : FileTree) :
    (root.put place name t).put place name t = root.put place name t := by
  rw [put, put, update_update]
  congr 1
  funext parent
  cases parent with
  | file contents => rfl
  | directory entries => exact congrArg directory (setEntry_setEntry name t entries)

/-! ### Ways through a tree that has grown -/

/-- Every walk from a place still leads where it did: the tree has grown, and no file has come to
stand in the place of a directory that was taken away at or above the start. -/
structure KeepsWays (origin : List String) (before after : FileTree) : Prop where
  grows : Grows before after
  noFile : ∀ place, place <+: origin → before.entryAt place = none →
    ∀ contents, after.entryAt place ≠ some (.file contents)

theorem keepsWays_of_grows {origin : List String} {before after : FileTree} (h : Grows before after)
    (horigin : before.entryAt origin ≠ none) : KeepsWays origin before after where
  grows := h
  noFile _ habove hmissing := absurd hmissing (entryAt_ne_none_above habove horigin)

/-- The places that a walk can reach: something stands there, or the walk has only gone up. -/
def Reachable (root : FileTree) (origin place : List String) : Prop :=
  root.entryAt place = none → place <+: origin

section Ways

variable {root before after : FileTree} {origin place next segments : List String}
  {segment : String}

/-- From a directory that was taken away one can only stay or go up. -/
theorem step_of_missing (h : root.entryAt place = none)
    (hstep : root.step place segment = .ok next) :
    segment = "." ∧ next = place ∨ segment = ".." ∧ next = place.dropLast := by
  have hplace : root.get? place = none := Option.map_eq_none_iff.mp h
  unfold step at hstep
  rw [hplace] at hstep
  dsimp only at hstep
  split at hstep
  · next hhere => exact .inl ⟨hhere, (Except.ok.inj hstep).symm⟩
  · split at hstep
    · next hup => exact .inr ⟨hup, (Except.ok.inj hstep).symm⟩
    · cases hstep

theorem step_of_not_file (h : ∀ contents, root.entryAt place ≠ some (.file contents)) :
    root.step place "." = .ok place ∧ root.step place ".." = .ok place.dropLast := by
  cases hplace : root.get? place with
  | none => simp [step, hplace]
  | some t =>
    cases t with
    | file contents => exact absurd (by simp [entryAt, hplace, entry]) (h contents)
    | directory entries => simp [step, hplace]

theorem Reachable.step (h : Reachable root origin place)
    (hstep : root.step place segment = .ok next) : Reachable root origin next := by
  by_cases hplace : root.entryAt place = none
  · obtain ⟨-, rfl⟩ | ⟨-, rfl⟩ := step_of_missing hplace hstep
    · exact h
    · exact fun _ => (List.dropLast_prefix place).trans (h hplace)
  · exact fun hnext => absurd hnext (entryAt_ne_none_of_step hplace hstep)

theorem step_of_keepsWays (h : KeepsWays origin before after)
    (hplace : Reachable before origin place) (hstep : before.step place segment = .ok next) :
    after.step place segment = .ok next := by
  by_cases hmissing : before.entryAt place = none
  · obtain ⟨hhere, hup⟩ := step_of_not_file (h.noFile place (hplace hmissing) hmissing)
    obtain ⟨rfl, rfl⟩ | ⟨rfl, rfl⟩ := step_of_missing hmissing hstep
    · exact hhere
    · exact hup
  · exact step_of_grows h.grows hmissing hstep

theorem walk_of_keepsWays (h : KeepsWays origin before after) {start : List String}
    (hstart : Reachable before origin start) (hwalk : before.walk start segments = .ok place) :
    after.walk start segments = .ok place ∧ Reachable before origin place := by
  induction segments generalizing start with
  | nil =>
    cases hwalk
    exact ⟨rfl, hstart⟩
  | cons segment segments ih =>
    rw [walk] at hwalk ⊢
    cases hstep : before.step start segment with
    | error e => simp [hstep] at hwalk
    | ok next =>
      rw [hstep] at hwalk
      rw [step_of_keepsWays h hstart hstep]
      exact ih (hstart.step hstep) hwalk

theorem reachable_origin (root : FileTree) (origin : List String) : Reachable root origin origin :=
  fun _ => List.prefix_rfl

/-- A place that can be reached and holds no file still holds none. -/
theorem KeepsWays.not_file (h : KeepsWays origin before after)
    (hplace : Reachable before origin place)
    (hbefore : ∀ contents, before.entryAt place ≠ some (.file contents)) (contents : ByteArray) :
    after.entryAt place ≠ some (.file contents) := by
  cases hentry : before.entryAt place with
  | none => exact h.noFile place (hplace hentry) hentry contents
  | some entry =>
    cases entry with
    | file old => exact absurd hentry (hbefore old)
    | directory =>
      rw [h.grows.directory place hentry]
      nofun

theorem keepsWays_of_onlyAddsDirectories (h : OnlyAddsDirectories before after) :
    KeepsWays origin before after where
  grows := ⟨fun place => (h place).present, fun place => (h place).directory⟩
  noFile place _ hmissing contents hfile := by
    obtain hsame | ⟨-, hdir⟩ := h place
    · cases hmissing.symm.trans (hsame.symm.trans hfile)
    · cases hdir.symm.trans hfile

theorem isDirectory_reached_iff :
    (root.reached place).isDirectory = true ↔
      ∀ contents, root.entryAt place ≠ some (.file contents) := by
  unfold reached entryAt
  cases root.get? place with
  | none => simp [isDirectory]
  | some t => cases t <;> simp [isDirectory, entry]

theorem leadsToDirectory_iff :
    root.leadsToDirectory origin segments = true ↔
      ∃ place, root.walk origin segments = .ok place ∧
        ∀ contents, root.entryAt place ≠ some (.file contents) := by
  unfold leadsToDirectory
  cases root.walk origin segments with
  | error e => simp
  | ok place => simp [isDirectory_reached_iff]

theorem leadsToDirectory_of_keepsWays (h : KeepsWays origin before after)
    (hleads : before.leadsToDirectory origin segments = true) :
    after.leadsToDirectory origin segments = true := by
  obtain ⟨place, hwalk, hplace⟩ := leadsToDirectory_iff.mp hleads
  obtain ⟨hafter, hreachable⟩ := walk_of_keepsWays h (reachable_origin before origin) hwalk
  exact leadsToDirectory_iff.mpr ⟨place, hafter, h.not_file hreachable hplace⟩

/-- The way to an entry that was put into a directory. -/
theorem walk_put {front : List String} {name : String} {entries : List (String × FileTree)}
    {t : FileTree} (h : KeepsWays origin root (root.put place name t))
    (hname : name ≠ "." ∧ name ≠ ".." ∧ exceedsLimit name = false)
    (hwalk : root.walk origin front = .ok place)
    (hdir : root.get? place = some (.directory entries)) :
    (root.put place name t).walk origin (front ++ [name]) = .ok (place ++ [name]) := by
  have hplace := h.grows.directory place (entryAt_eq_directory_iff.mpr ⟨_, hdir⟩)
  have hput : (root.put place name t).entryAt (place ++ [name]) ≠ none := by
    rw [entryAt_put_below hdir t []]
    simp [entryAt]
  have hstep : (root.put place name t).step place name = .ok (place ++ [name]) := by
    rw [step_eq_ok_iff (by simp [hplace])]
    exact ⟨hplace, .inr (.inr ⟨hname, hput, rfl⟩)⟩
  refine (walk_append (walk_of_keepsWays h (reachable_origin root origin) hwalk).1).trans ?_
  rw [walk, hstep]
  rfl

/-- A new directory is found where it was made. -/
theorem leadsToDirectory_of_makeDirectory {made : FileTree}
    (h : root.makeDirectory origin segments = .ok made) :
    made.leadsToDirectory origin segments = true := by
  obtain ⟨front, name, place, entries, rfl, hname, hwalk, hdir, hfree, rfl⟩ :=
    exists_parent_of_makeDirectory h
  have hkeeps : KeepsWays origin root _ :=
    keepsWays_of_onlyAddsDirectories (onlyAddsDirectories_put hdir hfree)
  have hmade : (root.put place name (.directory [])).entryAt (place ++ [name]) = some .directory :=
    entryAt_put_below hdir _ []
  exact leadsToDirectory_iff.mpr
    ⟨place ++ [name], walk_put hkeeps hname hwalk hdir, fun contents => by simp [hmade]⟩

theorem leadsToDirectory_of_ensureDirectory {made : FileTree}
    (h : root.ensureDirectory origin segments = .ok made) :
    made.leadsToDirectory origin segments = true := by
  unfold ensureDirectory at h
  split at h
  · next hmade =>
    cases h
    exact leadsToDirectory_of_makeDirectory hmade
  · split at h
    · next hleads =>
      cases h
      exact hleads
    · cases h

/-- Once directories are made, the path leads to a directory. -/
theorem leadsToDirectory_of_makeDirectories {outer : List (List String)}
    (h : (root.makeDirectories origin (segments :: outer)).1 = .ok ()) :
    (root.makeDirectories origin (segments :: outer)).2.leadsToDirectory origin segments =
      true := by
  rw [makeDirectories] at h ⊢
  split at h
  · next hmade => exact leadsToDirectory_of_ensureDirectory hmade
  · split at h
    · cases h
    · split at h
      · next hmade => exact leadsToDirectory_of_ensureDirectory hmade
      · cases h
  · cases h

/-- A directory that is there is not made. -/
theorem makeDirectory_ne_ok (h : root.leadsToDirectory origin segments = true) (made : FileTree) :
    root.makeDirectory origin segments ≠ .ok made := by
  intro hmade
  obtain ⟨front, name, around, entries, rfl, hname, hfront, hdir, hfree, -⟩ :=
    exists_parent_of_makeDirectory hmade
  obtain ⟨place, hwalk, -⟩ := leadsToDirectory_iff.mp h
  rw [walk_append hfront, walk] at hwalk
  simp [step, hdir, hname, hfree] at hwalk

theorem makeDirectories_of_leads (h : root.leadsToDirectory origin segments = true)
    (outer : List (List String)) :
    root.makeDirectories origin (segments :: outer) = (.ok (), root) := by
  have hensure : root.ensureDirectory origin segments = .ok root := by
    unfold ensureDirectory
    split
    · next made hmade => exact absurd hmade (makeDirectory_ne_ok h made)
    · rw [if_pos h]
  rw [makeDirectories, hensure]

end Ways

end FileTree

end AvroTypings
