import AvroTypings.Document

/-!
# The stem of a source

A document whose schema has no name is named after its source. The stem is made in two steps: the
source is cut behind its last separator, and the schema extension is taken off what follows. This
file describes the result by the source as a whole, of which it is one of three parts: directories,
a stem and an ending. There is one way only to take a source apart like this.

## Main definitions

* `Document.HasExtension`: a source that ends in the schema extension.
* `Document.EndsInSeparator`: a text that ends in a slash of either kind.
* `Document.IsCut`: a source, taken apart into directories, a stem and an ending.

## Main results

* `Document.lastPiece_eq_iff`: the last piece is what has no separator and follows one.
* `Document.toList_stem_of_extension`, `Document.toList_stem_of_no_extension`: the stem as a last
  piece.
* `Document.exists_isCut_iff_eq_stem`: the stem is the middle part of the source.
-/

namespace AvroTypings.Document

/-- A source that ends in the schema extension and its dot. -/
def HasExtension (source : String) : Prop := ∃ base, source = base ++ ".avsc"

/-- A text that ends in a slash of either kind. -/
def EndsInSeparator (text : String) : Prop := ∃ above, text = above ++ "/" ∨ text = above ++ "\\"

/-- A source is taken apart into directories, which are missing or end in a separator, a stem that
holds no separator, and an ending, which is the schema extension with its dot or nothing. -/
structure IsCut (source directories stem ending : String) : Prop where
  source_eq : source = directories ++ stem ++ ending
  directories_end : directories = "" ∨ EndsInSeparator directories
  stem_plain : '/' ∉ stem.toList ∧ '\\' ∉ stem.toList
  ending_of_extension : HasExtension source → ending = ".avsc"
  ending_of_no_extension : ¬ HasExtension source → ending = ""

/-! ### Pieces between separators -/

section Pieces

variable {letters before piece : List Char}

theorem isSeparator_iff {c : Char} : isSeparator c = true ↔ c = '/' ∨ c = '\\' := by
  simp [isSeparator]

theorem forall_isSeparator_eq_false_iff :
    (∀ c ∈ letters, isSeparator c = false) ↔ '/' ∉ letters ∧ '\\' ∉ letters := by
  constructor
  · intro h
    constructor <;>
    · intro hmem
      cases h _ hmem
  · rintro ⟨hslash, hbackslash⟩ c hc
    rw [Bool.eq_false_iff, Ne, isSeparator_iff]
    rintro (rfl | rfl)
    · exact hslash hc
    · exact hbackslash hc

/-- Characters that are no separators lengthen the last piece. -/
theorem lastPiece_append (hpiece : ∀ c ∈ piece, isSeparator c = false) :
    lastPiece (letters ++ piece) = lastPiece letters ++ piece := by
  have hall : ∀ c ∈ piece.reverse, (!isSeparator c) = true := by
    intro c hc
    rw [hpiece c (List.mem_reverse.mp hc), Bool.not_false]
  rw [lastPiece, List.reverse_append, List.takeWhile_append_of_pos hall, List.reverse_append,
    List.reverse_reverse]
  rfl

/-- Nothing follows a separator at the end. -/
theorem lastPiece_of_getLast? (h : ∀ c ∈ letters.getLast?, isSeparator c = true) :
    lastPiece letters = [] := by
  rw [← List.head?_reverse] at h
  unfold lastPiece
  cases hback : letters.reverse with
  | nil => rfl
  | cons c back =>
    rw [hback] at h
    rw [List.takeWhile_cons_of_neg (by simpa using h c rfl), List.reverse_nil]

theorem forall_mem_lastPiece : ∀ c ∈ lastPiece letters, isSeparator c = false := by
  intro c hc
  have := List.all_takeWhile (l := letters.reverse) (p := fun c => !isSeparator c)
  rw [List.all_eq_true] at this
  simpa using this c (List.mem_reverse.mp hc)

/-- The last piece of a text, and what comes before it. -/
theorem exists_before_lastPiece (letters : List Char) :
    ∃ before, letters = before ++ lastPiece letters ∧
      ∀ c ∈ before.getLast?, isSeparator c = true := by
  refine ⟨(letters.reverse.dropWhile fun c => !isSeparator c).reverse, ?_, fun c hc => ?_⟩
  · rw [lastPiece, ← List.reverse_append, List.takeWhile_append_dropWhile, List.reverse_reverse]
  · rw [List.getLast?_reverse] at hc
    have hstop := List.head?_dropWhile_not (fun c => !isSeparator c) letters.reverse
    rw [hc] at hstop
    simpa using hstop

/-- The last piece holds no separator, and there is one right before it unless it is all there
is. -/
theorem lastPiece_eq_iff :
    lastPiece letters = piece ↔
      ∃ before, letters = before ++ piece ∧ (∀ c ∈ before.getLast?, isSeparator c = true) ∧
        ∀ c ∈ piece, isSeparator c = false := by
  constructor
  · rintro rfl
    obtain ⟨before, hletters, hbefore⟩ := exists_before_lastPiece letters
    exact ⟨before, hletters, hbefore, forall_mem_lastPiece⟩
  · rintro ⟨before, rfl, hbefore, hpiece⟩
    rw [lastPiece_append hpiece, lastPiece_of_getLast? hbefore, List.nil_append]

/-- Directories are missing or end in a separator exactly if their last character, if there is one,
is a separator. -/
theorem directories_end_iff {directories : String} :
    directories = "" ∨ EndsInSeparator directories ↔
      ∀ c ∈ directories.toList.getLast?, isSeparator c = true := by
  constructor
  · rintro (rfl | ⟨above, rfl | rfl⟩)
    · simp
    · simp [isSeparator]
    · simp [isSeparator]
  · intro h
    rcases List.eq_nil_or_concat directories.toList with hnil | ⟨above, c, hconcat⟩
    · exact .inl (String.toList_eq_nil_iff.mp hnil)
    · rw [List.concat_eq_append] at hconcat
      rw [hconcat, List.getLast?_concat] at h
      refine .inr ⟨String.ofList above, ?_⟩
      rcases isSeparator_iff.mp (h c rfl) with rfl | rfl
      · exact .inl (String.toList_inj.mp (by simp [hconcat]))
      · exact .inr (String.toList_inj.mp (by simp [hconcat]))

/-- The last piece of a source as a text. -/
theorem lastPiece_toList_eq_iff {source text : String} :
    lastPiece source.toList = text.toList ↔
      ∃ directories, source = directories ++ text ∧
        (directories = "" ∨ EndsInSeparator directories) ∧
          '/' ∉ text.toList ∧ '\\' ∉ text.toList := by
  simp only [lastPiece_eq_iff, directories_end_iff, forall_isSeparator_eq_false_iff]
  constructor
  · rintro ⟨before, hsource, hbefore, htext⟩
    refine ⟨String.ofList before, String.toList_inj.mp ?_, ?_, htext⟩
    · rw [hsource, String.toList_append, String.toList_ofList]
    · rwa [String.toList_ofList]
  · rintro ⟨directories, rfl, hdirectories, htext⟩
    exact ⟨directories.toList, String.toList_append, hdirectories, htext⟩

end Pieces

/-! ### The extension -/

theorem stripExtension_append (name : List Char) :
    stripExtension (name ++ ".avsc".toList) = name := by
  have hsuffix : ('.' :: fileExtension.toList).isSuffixOf (name ++ ".avsc".toList) = true :=
    List.isSuffixOf_iff_suffix.mpr (List.suffix_append name _)
  rw [stripExtension, if_pos hsuffix]
  exact List.take_left' (by simp [fileExtension])

theorem stripExtension_of_not_suffix {name : List Char} (h : ¬ ".avsc".toList <:+ name) :
    stripExtension name = name := by
  have hsuffix : ¬ ('.' :: fileExtension.toList).isSuffixOf name = true :=
    mt List.isSuffixOf_iff_suffix.mp h
  rw [stripExtension, if_neg hsuffix]

theorem hasExtension_of_suffix {source : String} (h : ".avsc".toList <:+ source.toList) :
    HasExtension source := by
  obtain ⟨base, hbase⟩ := h
  refine ⟨String.ofList base, String.toList_inj.mp ?_⟩
  rw [String.toList_append, String.toList_ofList, hbase]

/-! ### The stem -/

/-- The schema extension is a piece of its own, so that taking it off and looking for the last
separator can be done in either order. -/
theorem toList_stem_of_extension {d : Document} {base : String}
    (h : d.source = base ++ ".avsc") : d.stem.toList = lastPiece base.toList := by
  have hextension : ∀ c ∈ ".avsc".toList, isSeparator c = false :=
    forall_isSeparator_eq_false_iff.mpr (by decide)
  rw [stem, String.toList_ofList, h, String.toList_append, lastPiece_append hextension,
    stripExtension_append]

theorem toList_stem_of_no_extension {d : Document} (h : ¬ HasExtension d.source) :
    d.stem.toList = lastPiece d.source.toList := by
  obtain ⟨before, hsource, -⟩ := exists_before_lastPiece d.source.toList
  have hsuffix : ¬ ".avsc".toList <:+ lastPiece d.source.toList := by
    intro hpiece
    refine h (hasExtension_of_suffix (hpiece.trans ?_))
    exact ⟨before, hsource.symm⟩
  rw [stem, String.toList_ofList, stripExtension_of_not_suffix hsuffix]

/-- The ending of a source is settled by the source, and what is left without it is cut behind its
last separator. -/
theorem exists_isCut_iff {source base ending text : String} (hsource : source = base ++ ending)
    (hsome : HasExtension source → ending = ".avsc")
    (hnone : ¬ HasExtension source → ending = "") :
    (∃ directories other, IsCut source directories text other) ↔
      lastPiece base.toList = text.toList := by
  rw [lastPiece_toList_eq_iff]
  constructor
  · rintro ⟨directories, other, hcut⟩
    have hending : other = ending := by
      by_cases h : HasExtension source
      · rw [hcut.ending_of_extension h, hsome h]
      · rw [hcut.ending_of_no_extension h, hnone h]
    have hbase := hcut.source_eq
    rw [hending, hsource, String.append_left_inj] at hbase
    exact ⟨directories, hbase, hcut.directories_end, hcut.stem_plain⟩
  · rintro ⟨directories, rfl, hdirectories, htext⟩
    exact ⟨directories, ending, hsource, hdirectories, htext, hsome, hnone⟩

/-- **The stem of a source.** A text is the middle part of a source that is taken apart into
directories, a stem and an ending exactly if it is the stem of the source: there is always such a
way to take the source apart, and it always leads to the same stem. -/
theorem exists_isCut_iff_eq_stem (d : Document) (text : String) :
    (∃ directories ending, IsCut d.source directories text ending) ↔ text = d.stem := by
  rw [eq_comm, ← String.toList_inj]
  by_cases h : HasExtension d.source
  · obtain ⟨base, hbase⟩ := h
    rw [toList_stem_of_extension hbase]
    exact exists_isCut_iff hbase (fun _ => rfl) fun hnone => absurd ⟨base, hbase⟩ hnone
  · rw [toList_stem_of_no_extension h]
    exact exists_isCut_iff String.append_empty.symm (fun hsome => absurd hsome h) fun _ => rfl

/-- Without its dot the extension is part of the stem, and a dot further ahead ends no stem. -/
example :
    (⟨"a/b\\xavsc", .primitive .null⟩ : Document).stem = "xavsc" ∧
      (⟨"a/ping.v2.avsc", .primitive .null⟩ : Document).stem = "ping.v2" := by
  decide

end AvroTypings.Document
