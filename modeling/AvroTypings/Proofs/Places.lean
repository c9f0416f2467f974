import AvroTypings.FileTree.Walk

/-!
# What stands at the places of a file tree

A file tree is seen here through its places: at each place stands a file with its contents, a
directory, or nothing. Putting an entry into a directory changes what stands at and below that
entry and nothing else. This is all that the operations on a tree are used for in this file: making
directories only adds directories, and a tree in which something was added is still walked through
as before.

## Main definitions

* `FileTree.entryAt`: what stands at a place.
* `FileTree.OnlyAddsDirectories`: two trees agree but for directories where nothing was.
* `FileTree.WritesFileAt`: the same, but for one place that now holds a file.

## Main results

* `FileTree.entryAt_put_of_not_below`: what putting an entry leaves alone.
* `FileTree.onlyAddsDirectories_makeDirectories`: making directories only adds directories, also if
  it fails.
* `FileTree.step_of_grows`: a step that succeeds still does once more is there.
-/

namespace AvroTypings

/-- What can stand at a place of a file tree. -/
inductive Entry where
  | file (contents : ByteArray)
  | directory

namespace FileTree

/-- A file, or a directory without what it holds. -/
def entry : FileTree → Entry
  | file contents => .file contents
  | directory _ => .directory

/-- What stands at a place. -/
def entryAt (t : FileTree) (place : List String) : Option Entry := (t.get? place).map entry

/-! ### Entries of a directory -/

section Entries

variable {name other : String} {entries : List (String × FileTree)}

@[simp] theorem lookup_setEntry_self (t : FileTree) :
    (setEntry name t entries).lookup name = some t := by
  induction entries with
  | nil => simp [setEntry]
  | cons first entries ih =>
    obtain ⟨key, old⟩ := first
    by_cases h : key = name
    · simp [setEntry, h]
    · simp [setEntry, h, List.lookup_cons, beq_false_of_ne (Ne.symm h), ih]

theorem lookup_setEntry_of_ne (h : other ≠ name) (t : FileTree) :
    (setEntry name t entries).lookup other = entries.lookup other := by
  induction entries with
  | nil => simp [setEntry, List.lookup_cons, beq_false_of_ne h]
  | cons first entries ih =>
    obtain ⟨key, old⟩ := first
    by_cases hkey : key = name
    · simp [setEntry, hkey, List.lookup_cons, beq_false_of_ne h]
    · simp [setEntry, hkey, List.lookup_cons, ih]

@[simp] theorem lookup_modifyEntry_self (f : FileTree → FileTree) :
    (modifyEntry name f entries).lookup name = (entries.lookup name).map f := by
  induction entries with
  | nil => rfl
  | cons first entries ih =>
    obtain ⟨key, old⟩ := first
    by_cases h : key = name
    · simp [modifyEntry, h]
    · simp [modifyEntry, h, List.lookup_cons, beq_false_of_ne (Ne.symm h), ih]

theorem lookup_modifyEntry_of_ne (h : other ≠ name) (f : FileTree → FileTree) :
    (modifyEntry name f entries).lookup other = entries.lookup other := by
  induction entries with
  | nil => rfl
  | cons first entries ih =>
    obtain ⟨key, old⟩ := first
    by_cases hkey : key = name
    · simp [modifyEntry, hkey, List.lookup_cons, beq_false_of_ne h]
    · simp [modifyEntry, hkey, List.lookup_cons, ih]

end Entries

/-! ### Places -/

variable {root before after : FileTree} {place other : List String} {name : String}

@[simp] theorem get?_nil (t : FileTree) : t.get? [] = some t := by
  cases t <;> rfl

theorem get?_append (place rest : List String) :
    root.get? (place ++ rest) = (root.get? place).bind fun t => t.get? rest := by
  induction place generalizing root with
  | nil => simp
  | cons name place ih =>
    cases root with
    | file contents => rfl
    | directory entries =>
      rw [List.cons_append, get?, get?]
      cases entries.lookup name with
      | none => rfl
      | some t => exact ih

theorem get?_update_append {t : FileTree} (h : root.get? place = some t) (f : FileTree → FileTree)
    (rest : List String) : (root.update place f).get? (place ++ rest) = (f t).get? rest := by
  induction place generalizing root with
  | nil =>
    rw [get?_nil] at h
    cases h
    rw [update, List.nil_append]
  | cons name place ih =>
    cases root with
    | file contents => cases h
    | directory entries =>
      rw [get?] at h
      rw [update, List.cons_append, get?, lookup_modifyEntry_self]
      cases hchild : entries.lookup name with
      | none => simp [hchild] at h
      | some child =>
        rw [hchild] at h
        exact ih h

/-- What stands at and below an entry that was put into a directory. -/
theorem get?_put_below {entries : List (String × FileTree)}
    (h : root.get? place = some (.directory entries)) (t : FileTree) (rest : List String) :
    (root.put place name t).get? (place ++ name :: rest) = t.get? rest := by
  rw [put, get?_update_append h, get?, lookup_setEntry_self, Option.bind_some]

/-- Putting an entry into a directory changes nothing at the places that are not at or below the
entry. A directory on the way to it stays a directory. -/
theorem entryAt_put_of_not_below (h : ¬ (place ++ [name]) <+: other) (t : FileTree) :
    (root.put place name t).entryAt other = root.entryAt other := by
  induction place generalizing root other with
  | nil =>
    cases root with
    | file contents => rfl
    | directory entries =>
      cases other with
      | nil => rfl
      | cons first rest =>
        have hne : first ≠ name := by
          rintro rfl
          exact h (List.cons_prefix_cons.mpr ⟨rfl, List.nil_prefix⟩)
        rw [put, update, entryAt, entryAt, get?, get?, lookup_setEntry_of_ne hne]
  | cons key place ih =>
    cases root with
    | file contents => rfl
    | directory entries =>
      cases other with
      | nil => rfl
      | cons first rest =>
        rw [put, update, entryAt, entryAt, get?, get?]
        -- of the children only the one on the way to the entry is touched
        by_cases hfirst : first = key
        · subst hfirst
          have hrest : ¬ (place ++ [name]) <+: rest := by
            intro hrest
            exact h (List.cons_prefix_cons.mpr ⟨rfl, hrest⟩)
          rw [lookup_modifyEntry_self]
          cases entries.lookup first with
          | none => rfl
          | some child => exact ih hrest
        · rw [lookup_modifyEntry_of_ne hfirst]

theorem entryAt_put_below {entries : List (String × FileTree)}
    (h : root.get? place = some (.directory entries)) (t : FileTree) (rest : List String) :
    (root.put place name t).entryAt (place ++ name :: rest) = t.entryAt rest := by
  rw [entryAt, get?_put_below h, entryAt]

theorem entryAt_eq_directory_iff :
    root.entryAt place = some .directory ↔
      ∃ entries, root.get? place = some (.directory entries) := by
  unfold entryAt
  cases hplace : root.get? place with
  | none => simp
  | some t => cases t <;> simp [entry]

/-- What stands in a directory. -/
theorem entryAt_concat {entries : List (String × FileTree)}
    (h : root.get? place = some (.directory entries)) (name : String) (rest : List String) :
    root.entryAt (place ++ name :: rest) = (entries.lookup name).bind fun t => t.entryAt rest := by
  rw [entryAt, get?_append, h, Option.bind_some, get?]
  cases entries.lookup name <;> rfl

/-- Nothing stands below a place where nothing stands. -/
theorem entryAt_ne_none_above (hshorter : place <+: other) (h : root.entryAt other ≠ none) :
    root.entryAt place ≠ none := by
  obtain ⟨rest, rfl⟩ := hshorter
  unfold entryAt at h ⊢
  rw [get?_append] at h
  cases hplace : root.get? place with
  | none => simp [hplace] at h
  | some t => simp

/-! ### Trees that differ in a few places -/

/-- A place holds what it held before, or now holds a directory where nothing was. -/
def KeptOrDirectory (before after : FileTree) (place : List String) : Prop :=
  after.entryAt place = before.entryAt place ∨
    before.entryAt place = none ∧ after.entryAt place = some .directory

/-- Every file is there with its contents, and so is every directory; at most directories were
added. -/
def OnlyAddsDirectories (before after : FileTree) : Prop :=
  ∀ place, KeptOrDirectory before after place

/-- A place that was no directory holds a file with the given contents. Everything else is there as
it was, and at most directories were added. -/
structure WritesFileAt (place : List String) (contents : ByteArray) (before after : FileTree) :
    Prop where
  written : after.entryAt place = some (.file contents)
  replaced : before.entryAt place ≠ some .directory
  others : ∀ other, other ≠ place → KeptOrDirectory before after other

theorem OnlyAddsDirectories.refl (t : FileTree) : OnlyAddsDirectories t t := fun _ => .inl rfl

theorem KeptOrDirectory.trans {t : FileTree} (h : KeptOrDirectory before t place)
    (h' : KeptOrDirectory t after place) : KeptOrDirectory before after place := by
  obtain heq | ⟨hnone, hdir⟩ := h
  · rw [KeptOrDirectory, ← heq]
    exact h'
  · obtain heq | ⟨hnone', -⟩ := h'
    · exact .inr ⟨hnone, heq.trans hdir⟩
    · cases hdir.symm.trans hnone'

theorem OnlyAddsDirectories.trans {t : FileTree} (h : OnlyAddsDirectories before t)
    (h' : OnlyAddsDirectories t after) : OnlyAddsDirectories before after :=
  fun place => (h place).trans (h' place)

theorem KeptOrDirectory.directory (h : KeptOrDirectory before after place)
    (hdir : before.entryAt place = some .directory) : after.entryAt place = some .directory := by
  obtain heq | ⟨hnone, -⟩ := h
  · exact heq.trans hdir
  · cases hdir.symm.trans hnone

theorem KeptOrDirectory.present (h : KeptOrDirectory before after place)
    (hplace : before.entryAt place ≠ none) : after.entryAt place ≠ none := by
  obtain heq | ⟨hnone, -⟩ := h
  · rwa [heq]
  · exact absurd hnone hplace

theorem OnlyAddsDirectories.trans_writesFileAt {t : FileTree} {contents : ByteArray}
    (h : OnlyAddsDirectories before t) (h' : WritesFileAt place contents t after) :
    WritesFileAt place contents before after where
  written := h'.written
  replaced hdir := h'.replaced ((h place).directory hdir)
  others other hother := (h other).trans (h'.others other hother)

/-- Putting an empty directory where nothing was. -/
theorem onlyAddsDirectories_put {entries : List (String × FileTree)}
    (h : root.get? place = some (.directory entries)) (hname : entries.lookup name = none) :
    OnlyAddsDirectories root (root.put place name (.directory [])) := by
  intro other
  by_cases hbelow : (place ++ [name]) <+: other
  · obtain ⟨rest, rfl⟩ := hbelow
    rw [KeptOrDirectory, List.append_assoc, List.singleton_append, entryAt_put_below h,
      entryAt_concat h, hname]
    cases rest with
    | nil => exact .inr ⟨rfl, rfl⟩
    | cons first rest => exact .inl rfl
  · exact .inl (entryAt_put_of_not_below hbelow _)

/-- Putting a file where no directory was. -/
theorem writesFileAt_put {entries : List (String × FileTree)} {contents : ByteArray}
    (h : root.get? place = some (.directory entries))
    (hname : ∀ inner, entries.lookup name ≠ some (.directory inner)) :
    WritesFileAt (place ++ [name]) contents root (root.put place name (.file contents)) where
  written := entryAt_put_below h _ []
  replaced hdir := by
    rw [entryAt_concat h] at hdir
    cases hold : entries.lookup name with
    | none => simp [hold] at hdir
    | some t =>
      cases t with
      | file old => simp [hold, entryAt, entry] at hdir
      | directory inner => exact hname inner hold
  others other hother := by
    left
    by_cases hbelow : (place ++ [name]) <+: other
    · obtain ⟨rest, rfl⟩ := hbelow
      cases rest with
      | nil => exact absurd (List.append_nil _) hother
      | cons first rest =>
        rw [List.append_assoc, List.singleton_append, entryAt_put_below h, entryAt_concat h]
        cases hold : entries.lookup name with
        | none => rfl
        | some t =>
          cases t with
          | file old => rfl
          | directory inner => exact absurd hold (hname inner)
    · exact entryAt_put_of_not_below hbelow _

/-! ### Making directories -/

theorem parentOf_eq_ok_some {origin segments : List String} {entries : List (String × FileTree)}
    (h : root.parentOf origin segments = .ok (place, some entries)) :
    root.walk origin segments.dropLast = .ok place ∧
      root.get? place = some (.directory entries) := by
  unfold parentOf at h
  split at h
  · cases h
  · next reached hwalk =>
    split at h
    · next hdir =>
      cases h
      exact ⟨hwalk, hdir⟩
    · cases h
    · cases h

/-- How a directory comes to be made: the segments end in a name, the directory around it is
reached, and nothing has the name. -/
theorem exists_parent_of_makeDirectory {origin segments : List String} {made : FileTree}
    (h : root.makeDirectory origin segments = .ok made) :
    ∃ front name place entries, segments = front ++ [name] ∧
      (name ≠ "." ∧ name ≠ ".." ∧ exceedsLimit name = false) ∧
      root.walk origin front = .ok place ∧ root.get? place = some (.directory entries) ∧
      entries.lookup name = none ∧ made = root.put place name (.directory []) := by
  unfold makeDirectory at h
  split at h
  · cases h
  · next name hname =>
    split at h
    · cases h
    · next place found hparent =>
      split at h
      · cases h
      · next hkind =>
        cases found with
        | none => cases h
        | some entries =>
          -- the directory is new: an entry of its name would have been an error
          simp only at h
          split at h
          · cases h
          · next hlimit =>
            split at h
            · cases h
            · next hfree =>
              cases h
              obtain ⟨hwalk, hdir⟩ := parentOf_eq_ok_some hparent
              simp only [Bool.or_eq_true, decide_eq_true_eq, not_or, Bool.not_eq_true]
                at hkind hlimit
              obtain ⟨front, hfront⟩ := List.getLast?_eq_some_iff.mp hname
              rw [hfront, List.dropLast_concat] at hwalk
              exact ⟨front, name, place, entries, hfront, ⟨hkind.1, hkind.2, hlimit⟩, hwalk, hdir,
                Option.not_isSome_iff_eq_none.mp hfree, rfl⟩

/-- Making directories relates the tree before and after it by every relation that holds where one
new directory is put, and that can be chained. -/
theorem makeDirectories_induction {related : FileTree → FileTree → Prop}
    (refl : ∀ t, related t t)
    (trans : ∀ {a b c}, related a b → related b c → related a c)
    (put : ∀ {t place name entries}, t.get? place = some (.directory entries) →
      entries.lookup name = none → related t (t.put place name (.directory [])))
    (root : FileTree) (origin : List String) (chain : List (List String)) :
    related root (root.makeDirectories origin chain).2 := by
  have ensure {t made : FileTree} {segments : List String}
      (h : t.ensureDirectory origin segments = .ok made) : related t made := by
    unfold ensureDirectory at h
    split at h
    · next hmade =>
      cases h
      obtain ⟨_, _, _, _, -, -, -, hdir, hfree, rfl⟩ := exists_parent_of_makeDirectory hmade
      exact put hdir hfree
    · split at h
      · cases h
        exact refl t
      · cases h
  induction chain with
  | nil => exact refl root
  | cons segments outer ih =>
    rw [makeDirectories]
    split
    · next hmade => exact ensure hmade
    -- the directory around it is missing: that one is made first, then the directory again
    · split
      · next houter =>
        rw [houter] at ih
        exact ih
      · next houter =>
        rw [houter] at ih
        split
        · next hmade => exact trans ih (ensure hmade)
        · exact ih
    · exact refl root

/-- Making a directory with those around it only adds directories, also if it fails midway. -/
theorem onlyAddsDirectories_makeDirectories (root : FileTree) (origin : List String)
    (chain : List (List String)) : OnlyAddsDirectories root (root.makeDirectories origin chain).2 :=
  makeDirectories_induction .refl .trans onlyAddsDirectories_put root origin chain

/-! ### Walks -/

/-- Whatever stood at a place is still there in some form, and directories are directories. -/
structure Grows (before after : FileTree) : Prop where
  present : ∀ place, before.entryAt place ≠ none → after.entryAt place ≠ none
  directory : ∀ place, before.entryAt place = some .directory →
    after.entryAt place = some .directory

theorem WritesFileAt.grows {contents : ByteArray} (h : WritesFileAt place contents before after) :
    Grows before after where
  present other hother := by
    by_cases hplace : other = place
    · rw [hplace, h.written]
      exact Option.some_ne_none _
    · exact (h.others other hplace).present hother
  directory other hdir := by
    refine (h.others other ?_).directory hdir
    rintro rfl
    exact h.replaced hdir

theorem isSome_lookup_iff {entries : List (String × FileTree)}
    (h : root.get? place = some (.directory entries)) :
    (entries.lookup name).isSome = true ↔ root.entryAt (place ++ [name]) ≠ none := by
  rw [entryAt_concat h]
  cases entries.lookup name with
  | none => simp
  | some t => simp [entryAt]

/-- A step from a place where something stands. -/
theorem step_eq_ok_iff {segment : String} {next : List String} (h : root.entryAt place ≠ none) :
    root.step place segment = .ok next ↔ root.entryAt place = some .directory ∧
      (segment = "." ∧ next = place ∨ segment = ".." ∧ next = place.dropLast ∨
        (segment ≠ "." ∧ segment ≠ ".." ∧ exceedsLimit segment = false) ∧
          root.entryAt (place ++ [segment]) ≠ none ∧ next = place ++ [segment]) := by
  cases hplace : root.get? place with
  | none => simp [entryAt, hplace] at h
  | some t =>
    cases t with
    | file contents => simp [step, entryAt, entry, hplace]
    | directory entries =>
      have hdir : root.entryAt place = some .directory :=
        entryAt_eq_directory_iff.mpr ⟨entries, hplace⟩
      rw [← isSome_lookup_iff hplace]
      by_cases hhere : segment = "."
      · simp [step, hplace, hdir, hhere, @eq_comm _ place]
      by_cases hup : segment = ".."
      · simp [step, hplace, hdir, hup, @eq_comm _ place.dropLast]
      by_cases hlong : exceedsLimit segment
      · simp [step, hplace, hhere, hup, hlong]
      by_cases hfound : (entries.lookup segment).isSome
      · simp [step, hplace, hdir, hhere, hup, hlong, hfound, @eq_comm _ (place ++ [segment])]
      · simp [step, hplace, hhere, hup, hlong, hfound]

/-- A step leads from a place where something stands to another one. -/
theorem entryAt_ne_none_of_step {segment : String} {next : List String}
    (h : root.entryAt place ≠ none) (hstep : root.step place segment = .ok next) :
    root.entryAt next ≠ none := by
  obtain ⟨-, ⟨-, rfl⟩ | ⟨-, rfl⟩ | ⟨-, hnext, rfl⟩⟩ := (step_eq_ok_iff h).mp hstep
  · exact h
  · have hshorter := List.dropLast_prefix place
    exact entryAt_ne_none_above hshorter h
  · exact hnext

theorem step_of_grows (h : Grows before after) {segment : String} {next : List String}
    (hplace : before.entryAt place ≠ none) (hstep : before.step place segment = .ok next) :
    after.step place segment = .ok next := by
  obtain ⟨hdir, hcases⟩ := (step_eq_ok_iff hplace).mp hstep
  refine (step_eq_ok_iff (h.present place hplace)).mpr ⟨h.directory place hdir, ?_⟩
  obtain hhere | hup | ⟨hname, hfound, hnext⟩ := hcases
  · exact .inl hhere
  · exact .inr (.inl hup)
  · exact .inr (.inr ⟨hname, h.present _ hfound, hnext⟩)

/-- A walk in two parts. -/
theorem walk_append {origin first rest : List String} (h : root.walk origin first = .ok place) :
    root.walk origin (first ++ rest) = root.walk place rest := by
  induction first generalizing origin with
  | nil =>
    cases h
    rfl
  | cons segment first ih =>
    rw [List.cons_append, walk]
    rw [walk] at h
    cases hstep : root.step origin segment with
    | error e => simp [hstep] at h
    | ok next =>
      rw [hstep] at h
      exact ih h

end FileTree

end AvroTypings
