import AvroTypings.Proofs.Output

/-!
# Names in a directory and paths to them

A directory holds entries under distinct names, and a name is more than any text: it is not empty,
holds neither a slash nor a null character, is not longer than a name can be, and is not one of the
two that every directory has for itself and for the one above. `FileTree.Contents` are entries that
come with the proof of this. This file shows that the path that leads to such a name through the
path of the directory ends in that name and leads to that entry, provided that the path is not too
long to be followed at all.

## Main definitions

* `FileTree.IsEntryName`: the names that an entry can have.
* `FileTree.Contents`: the entries that a directory can hold.

## Main results

* `Path.segments_join`, `Path.fileName_join`: the segments and the name of such a path.
* `Path.fault?_join`: when such a path can be followed.
* `Path.extensionOf_eq_some_iff`: the extension of a name.
* `Disk.find_join`: what it leads to.
-/

namespace AvroTypings

namespace FileTree

/-- What an entry of a directory can be called. -/
structure IsEntryName (name : String) : Prop where
  nonempty : name ≠ ""
  notHere : name ≠ "."
  notAbove : name ≠ ".."
  noSlash : '/' ∉ name.toList
  noNull : '\x00' ∉ name.toList
  short : exceedsLimit name = false

instance (name : String) : Decidable (IsEntryName name) :=
  decidable_of_iff (name ≠ "" ∧ name ≠ "." ∧ name ≠ ".." ∧ '/' ∉ name.toList ∧
      '\x00' ∉ name.toList ∧ exceedsLimit name = false)
    ⟨fun ⟨h₁, h₂, h₃, h₄, h₅, h₆⟩ => ⟨h₁, h₂, h₃, h₄, h₅, h₆⟩,
      fun ⟨h₁, h₂, h₃, h₄, h₅, h₆⟩ => ⟨h₁, h₂, h₃, h₄, h₅, h₆⟩⟩

/-- What a directory can hold: entries under distinct names. -/
structure Contents where
  entries : List (String × FileTree)
  distinct : (entries.map Prod.fst).Nodup
  isEntryName : ∀ name ∈ entries.map Prod.fst, IsEntryName name

theorem IsEntryName.toList_ne_nil {name : String} (h : IsEntryName name) : name.toList ≠ [] := by
  simpa using h.nonempty

namespace Contents

/-- The same entries in another order. -/
def reorder (contents : Contents) {others : List (String × FileTree)}
    (h : contents.entries.Perm others) : Contents where
  entries := others
  distinct := (h.map Prod.fst).nodup_iff.mp contents.distinct
  isEntryName name hmem := contents.isEntryName name ((h.map Prod.fst).mem_iff.mpr hmem)

theorem isEntryName_of_mem (contents : Contents) {name : String} {t : FileTree}
    (h : (name, t) ∈ contents.entries) : IsEntryName name :=
  contents.isEntryName name (List.mem_map.mpr ⟨_, h, rfl⟩)

end Contents

theorem lookup_of_mem {entries : List (String × FileTree)} {name : String} {t : FileTree}
    (hdistinct : (entries.map Prod.fst).Nodup) (hmem : (name, t) ∈ entries) :
    entries.lookup name = some t := by
  induction entries with
  | nil => cases hmem
  | cons first entries ih =>
    obtain ⟨hfirst, hothers⟩ := List.nodup_cons.mp hdistinct
    rcases List.mem_cons.mp hmem with rfl | hmem
    · simp
    · have hne : name ≠ first.1 := by
        rintro rfl
        exact hfirst (List.mem_map.mpr ⟨_, hmem, rfl⟩)
      rw [List.lookup_cons, beq_false_of_ne hne]
      exact ih hothers hmem

end FileTree

open FileTree (IsEntryName Contents)

/-! ### Paths through a directory -/

namespace Path

variable {folder : Path} {name : String}

theorem text_ne_empty (hfolder : folder.fault? = none) : folder.text ≠ "" := by
  rintro hempty
  simp [fault?, hempty] at hfolder

/-- The letters of a path to a name: a slash before the name, and before it the path of the
directory, or what is left of it if it ends in that slash. -/
theorem exists_toList_join (hfolder : folder.fault? = none) (hname : IsEntryName name) :
    ∃ front, (folder.join ⟨name⟩).text.toList = front ++ '/' :: name.toList ∧
      (folder.text.toList = front ++ ['/'] ∨ folder.text.toList = front) := by
  have habsolute : (⟨name⟩ : Path).isAbsolute = false := by
    cases hletters : name.toList with
    | nil => simp [isAbsolute, hletters]
    | cons first rest =>
      have hne : first ≠ '/' := by
        rintro rfl
        exact hname.noSlash (hletters ▸ List.mem_cons_self)
      simp [isAbsolute, hletters, hne]
  have hempty : folder.text.isEmpty = false := by
    simpa using text_ne_empty hfolder
  unfold join
  rw [habsolute, hempty, Bool.or_false, if_neg Bool.false_ne_true]
  split
  · next hslash =>
    obtain ⟨front, hfront⟩ := List.getLast?_eq_some_iff.mp (eq_of_beq hslash)
    exact ⟨front, by simp [hfront], .inl hfront⟩
  · exact ⟨folder.text.toList, by simp, .inr rfl⟩

/-- A path to a name is at least as long as the path of the directory and the name together. -/
theorem utf8ByteSize_le_join (hfolder : folder.fault? = none) (hname : IsEntryName name) :
    folder.text.utf8ByteSize + name.utf8ByteSize ≤ (folder.join ⟨name⟩).text.utf8ByteSize := by
  obtain ⟨front, hjoin, hfront⟩ := exists_toList_join hfolder hname
  have hpath : (folder.join ⟨name⟩).text = String.ofList front ++ "/" ++ name := by
    simp [← String.toList_inj, hjoin]
  rcases hfront with hslash | hsame
  · have htext : folder.text = String.ofList front ++ "/" := by
      simp [← String.toList_inj, hslash]
    rw [hpath, htext]
    exact Nat.le_of_eq String.utf8ByteSize_append.symm
  · have htext : folder.text = String.ofList front := by
      simp [← String.toList_inj, hsame]
    simp only [hpath, htext, String.utf8ByteSize_append]
    omega

theorem segments_of_toList {path : Path} {letters : List Char} (h : path.text.toList = letters) :
    path.segments =
      ((letters.splitOn '/').filter fun piece => !piece.isEmpty).map String.ofList := by
  rw [segments, h]

/-- The segments of a path to a name are those of the directory, and the name. -/
theorem segments_join (hfolder : folder.fault? = none) (hname : IsEntryName name) :
    (folder.join ⟨name⟩).segments = folder.segments ++ [name] := by
  obtain ⟨front, hjoin, hfront⟩ := exists_toList_join hfolder hname
  have hpiece : (name.toList.splitOn '/').filter (fun piece => !piece.isEmpty) = [name.toList] := by
    simp [List.splitOn_eq_singleton hname.noSlash, hname.nonempty]
  have hfolderSegments : folder.segments =
      ((front.splitOn '/').filter fun piece => !piece.isEmpty).map String.ofList := by
    rcases hfront with hslash | hsame
    · rw [segments_of_toList hslash, List.splitOn_append_cons_self]
      simp
    · exact segments_of_toList hsame
  rw [segments_of_toList hjoin, List.splitOn_append_cons_self, List.filter_append, hpiece,
    hfolderSegments]
  simp

theorem isAbsolute_join (hfolder : folder.fault? = none) (hname : IsEntryName name) :
    (folder.join ⟨name⟩).isAbsolute = folder.isAbsolute := by
  obtain ⟨front, hjoin, hfront⟩ := exists_toList_join hfolder hname
  have hletters : folder.text.toList ≠ [] := by simpa using text_ne_empty hfolder
  unfold isAbsolute
  rw [hjoin]
  rcases hfront with hslash | hsame
  · rw [hslash]
    cases front <;> rfl
  · rw [hsame] at hletters ⊢
    cases front with
    | nil => contradiction
    | cons first front => rfl

theorem endsInSlash_join (hfolder : folder.fault? = none) (hname : IsEntryName name) :
    (folder.join ⟨name⟩).endsInSlash = false := by
  obtain ⟨front, hjoin, -⟩ := exists_toList_join hfolder hname
  have hlast : name.toList.getLast? ≠ some '/' := fun h => hname.noSlash (List.mem_of_getLast? h)
  rw [endsInSlash, hjoin, List.getLast?_append, List.getLast?_cons_of_ne_nil hname.toList_ne_nil]
  cases hletters : name.toList.getLast? with
  | none => exact absurd (List.getLast?_eq_none_iff.mp hletters) hname.toList_ne_nil
  | some last =>
    rw [hletters] at hlast
    simpa using hlast

/-- A path to a name can be followed unless it is too long. -/
theorem fault?_join (hfolder : folder.fault? = none) (hname : IsEntryName name) :
    (folder.join ⟨name⟩).fault? =
      if lengthLimit < (folder.join ⟨name⟩).text.utf8ByteSize then some .nameTooLong else none := by
  obtain ⟨front, hjoin, hfront⟩ := exists_toList_join hfolder hname
  have hnull : '\x00' ∉ front := by
    intro hmem
    have hmem : '\x00' ∈ folder.text.toList := by
      rcases hfront with hslash | hsame
      · simp [hslash, hmem]
      · simp [hsame, hmem]
    simp [fault?, hmem] at hfolder
  have hletters : (folder.join ⟨name⟩).text.toList.contains '\x00' = false := by
    simp [hjoin, hnull, hname.noNull]
  have hempty : (folder.join ⟨name⟩).text.isEmpty = false := by
    rw [Bool.eq_false_iff]
    intro h
    rw [String.isEmpty_iff] at h
    simp [h] at hjoin
  rw [fault?, hletters, hempty]
  rfl

/-- A path to a name ends in this name. -/
theorem fileName_join (hfolder : folder.fault? = none) (hname : IsEntryName name) :
    (folder.join ⟨name⟩).fileName = some name := by
  have hlast : (folder.join ⟨name⟩).components.getLast? = some name := by
    unfold components
    rw [segments_join hfolder hname]
    cases folder.segments with
    | nil => simp [hname.notHere]
    | cons first others =>
      have hothers : (others ++ [name]).filter (· ≠ ".") = others.filter (· ≠ ".") ++ [name] := by
        simp [hname.notHere]
      simp only [List.cons_append, hothers]
      split
      · exact List.getLast?_concat
      · rw [← List.cons_append]
        exact List.getLast?_concat
  simp [fileName, hlast, hname.notHere, hname.notAbove]

/-! ### Extensions -/

theorem all_ne_dot {letters : List Char} (h : '.' ∉ letters) :
    ∀ letter ∈ letters, decide (letter ≠ '.') = true :=
  fun _ hmem => decide_eq_true fun heq => h (heq ▸ hmem)

theorem takeWhile_ne_dot {letters : List Char} (h : '.' ∉ letters) (rest : List Char) :
    (letters ++ '.' :: rest).takeWhile (· ≠ '.') = letters := by
  rw [List.takeWhile_append_of_pos (all_ne_dot h), List.takeWhile_cons_of_neg (by simp),
    List.append_nil]

/-- The extension of a name is what follows its last dot, if there is something before this dot. -/
theorem extensionOf_eq_some_iff {ext : String} :
    extensionOf name = some ext ↔
      '.' ∉ ext.toList ∧ ∃ stem, stem ≠ "" ∧ name = stem ++ "." ++ ext := by
  constructor
  · intro h
    unfold extensionOf at h
    dsimp only at h
    split at h
    · next hlength =>
      by_cases hdot : '.' ∈ name.toList.reverse
      · obtain ⟨back, rest, hsplit, hback⟩ := List.eq_append_cons_of_mem hdot
        rw [hsplit, takeWhile_ne_dot hback] at h hlength
        cases h
        have hname : name.toList = rest.reverse ++ '.' :: back.reverse := by
          simpa using congrArg List.reverse hsplit
        refine ⟨by simpa using hback, String.ofList rest.reverse, ?_, ?_⟩
        · intro hempty
          simp_all
        · rw [← String.toList_inj]
          simp [hname]
      · have hall := @List.takeWhile_append_of_pos _ _ _ [] (all_ne_dot hdot)
        rw [List.append_nil, List.takeWhile_nil, List.append_nil] at hall
        rw [hall, List.reverse_reverse] at hlength
        omega
    · cases h
  · rintro ⟨hdot, stem, hstem, rfl⟩
    have hback : (stem ++ "." ++ ext).toList.reverse.takeWhile (· ≠ '.') = ext.toList.reverse := by
      have hreverse : '.' ∉ ext.toList.reverse := by simpa using hdot
      simpa using takeWhile_ne_dot hreverse stem.toList.reverse
    have hlength : ext.toList.length + 1 < (stem ++ "." ++ ext).toList.length := by
      have hpos : 0 < stem.toList.length := List.length_pos_iff.mpr (by simpa using hstem)
      simp only [String.toList_append, List.length_append]
      change _ < _ + 1 + _
      omega
    simp only [extensionOf, hback, List.reverse_reverse, String.ofList_toList, if_pos hlength]

end Path

/-! ### What the paths lead to -/

namespace Disk

variable {d : Disk} {folder : Path} {entries : List (String × FileTree)}

theorem walk_of_locate {path : Path} {place : List String} (h : d.locate path = .ok place) :
    path.fault? = none ∧ d.root.walk (d.origin path) path.segments = .ok place := by
  unfold locate at h
  cases hfault : path.fault? with
  | some e => simp [hfault] at h
  | none =>
    cases hwalk : d.root.walk (d.origin path) path.segments with
    | error e => simp [hfault, hwalk] at h
    | ok found =>
      simp only [hfault, hwalk] at h
      refine ⟨rfl, ?_⟩
      split at h
      · split at h
        · cases h
        · exact h
      · exact h

/-- The entries of a directory come from the place that its path leads to. A directory that was
taken away has none. -/
theorem exists_place_of_entries (h : d.entries folder = .ok entries) :
    folder.fault? = none ∧ ∃ place,
      d.root.walk (d.origin folder) folder.segments = .ok place ∧
        (entries ≠ [] → d.root.get? place = some (.directory entries)) := by
  unfold Disk.entries find at h
  cases hlocate : d.locate folder with
  | error e => simp [hlocate] at h
  | ok place =>
    obtain ⟨hfault, hwalk⟩ := walk_of_locate hlocate
    refine ⟨hfault, place, hwalk, fun hsome => ?_⟩
    simp only [hlocate, FileTree.reached] at h
    cases hplace : d.root.get? place with
    | none =>
      rw [hplace] at h
      cases h
      contradiction
    | some t =>
      rw [hplace] at h
      cases t with
      | file contents => cases h
      | directory inner =>
        cases h
        rfl

/-- The path to a name leads to the entry of this name, unless it is too long. -/
theorem find_join {contents : Contents} (hentries : d.entries folder = .ok contents.entries)
    {name : String} {t : FileTree} (hmem : (name, t) ∈ contents.entries)
    (hlength : (folder.join ⟨name⟩).text.utf8ByteSize ≤ Path.lengthLimit) :
    d.find (folder.join ⟨name⟩) = .ok t := by
  obtain ⟨hfolder, place, hwalk, hplace⟩ := exists_place_of_entries hentries
  have hname := contents.isEntryName_of_mem hmem
  have hplace := hplace (List.ne_nil_of_mem hmem)
  have hlookup := FileTree.lookup_of_mem contents.distinct hmem
  have hfault : (folder.join ⟨name⟩).fault? = none := by
    rw [Path.fault?_join hfolder hname, if_neg (Nat.not_lt.mpr hlength)]
  have hstep : d.root.step place name = .ok (place ++ [name]) := by
    simp [FileTree.step, hplace, hname.notHere, hname.notAbove, hname.short, hlookup]
  have hpath : d.root.walk (d.origin (folder.join ⟨name⟩)) (folder.join ⟨name⟩).segments =
      .ok (place ++ [name]) := by
    rw [origin, Path.isAbsolute_join hfolder hname, Path.segments_join hfolder hname]
    refine (FileTree.walk_append hwalk).trans ?_
    rw [FileTree.walk, hstep]
    rfl
  have hreached : d.root.reached (place ++ [name]) = t := by
    simp [FileTree.reached, FileTree.get?_append, hplace, FileTree.get?, hlookup]
  rw [find, locate_of_walk hfault (Path.endsInSlash_join hfolder hname) hpath]
  exact congrArg Except.ok hreached

end Disk

end AvroTypings
