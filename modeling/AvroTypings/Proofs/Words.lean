import AvroTypings.Proofs.PropertyLines
import Mathlib.Data.List.Chain

/-!
# Words and single spaces

Documentation that holds a line break is folded: it is split into its words, which are joined again
by single spaces. This file proves that nothing but blanks is lost on the way. The words of a folded
text are those that it was made from, so that folding it again, or splitting it into words, gives
nothing new. A text without a line break is kept with all its blanks, and has the same words for
this reason.

## Main definitions

* `Text.IsWord`: a text that is not empty and holds no blank.
* `Text.IsSpaced`: a text whose only blanks are single spaces between words.

## Main results

* `Text.words_intercalate`: splitting is inverse to joining.
* `Text.isSpaced_intercalate`: words that are joined have single spaces between them.
* `Text.onOneLine_keeps_words`: what folding a text keeps and what it leaves out.
-/

namespace AvroTypings.Text

/-- A text that is not empty and holds no blank. -/
structure IsWord (text : String) : Prop where
  ne_empty : text ≠ ""
  plain : ∀ c ∈ text.toList, isBlank c = false

/-- A text whose only blanks are single spaces between words: none stands at either end, each is a
space, and no two of them stand side by side. -/
structure IsSpaced (text : String) : Prop where
  head : ∀ c ∈ text.toList.head?, isBlank c = false
  last : ∀ c ∈ text.toList.getLast?, isBlank c = false
  spaces : ∀ c ∈ text.toList, isBlank c = true → c = ' '
  single : text.toList.IsChain fun a b => isBlank a = false ∨ isBlank b = false

/-! ### Words -/

theorem isWord_of_mem_words {text word : String} (h : word ∈ words text) : IsWord word := by
  refine ⟨?_, isBlank_eq_false_of_mem_words h⟩
  rintro rfl
  obtain ⟨run, hrun, hempty⟩ := List.mem_map.mp h
  have hnil : run = [] := by simpa using congrArg String.toList hempty
  simpa [hnil] using (List.mem_filter.mp hrun).2

theorem IsWord.toList_ne_nil {word : String} (h : IsWord word) : word.toList ≠ [] := by
  simpa using h.ne_empty

/-- A word has no other word than itself. -/
theorem IsWord.words_eq {word : String} (h : IsWord word) : words word = [word] := by
  rw [words, List.splitOnP_eq_singleton h.plain]
  simp [h.ne_empty]

/-- A space behind a word ends it. -/
theorem IsWord.words_append {word : String} (h : IsWord word) (rest : String) :
    words (word ++ " " ++ rest) = word :: words rest := by
  have hletters : (word ++ " " ++ rest).toList = word.toList ++ ' ' :: rest.toList := by
    simp
  rw [words, hletters, List.splitOnP_append_cons_of_forall_mem h.plain ' ' (by decide)]
  simp [h.ne_empty, words]

/-- Splitting into words undoes joining them by spaces. -/
theorem words_intercalate {texts : List String} (h : ∀ text ∈ texts, IsWord text) :
    words (" ".intercalate texts) = texts := by
  induction texts with
  | nil => decide
  | cons text texts ih =>
    obtain ⟨htext, hothers⟩ := List.forall_mem_cons.mp h
    by_cases hlast : texts = []
    · rw [hlast, String.intercalate_singleton, htext.words_eq]
    · rw [String.intercalate_cons_of_ne_nil hlast, htext.words_append, ih hothers]

/-! ### Spaces -/

theorem isSpaced_empty : IsSpaced "" := by
  constructor <;> simp

theorem IsWord.isSpaced {word : String} (h : IsWord word) : IsSpaced word where
  head c hc := h.plain c (List.mem_of_mem_head? hc)
  last c hc := h.plain c (List.mem_of_mem_getLast? hc)
  spaces c hc hblank := by
    rw [h.plain c hc] at hblank
    contradiction
  single := (List.pairwise_of_forall_mem_list fun a ha _ _ => .inl (h.plain a ha)).isChain

/-- A space between a word and a text that starts with a word is a single one. -/
theorem IsWord.isSpaced_append {word rest : String} (h : IsWord word) (hrest : IsSpaced rest)
    (hne : rest ≠ "") : IsSpaced (word ++ " " ++ rest) := by
  have hletters : (word ++ " " ++ rest).toList = word.toList ++ ' ' :: rest.toList := by
    simp
  have hword := h.isSpaced
  refine ⟨?_, ?_, ?_, ?_⟩
  · rw [hletters, List.head?_append_of_ne_nil _ h.toList_ne_nil]
    exact hword.head
  · have htail : rest.toList ≠ [] := by simpa using hne
    rw [String.toList_append, List.getLast?_append_of_ne_nil _ htail]
    exact hrest.last
  · simp only [hletters, List.mem_append, List.mem_cons]
    rintro c (hc | rfl | hc)
    · exact hword.spaces c hc
    · exact fun _ => rfl
    · exact hrest.spaces c hc
  · rw [hletters, List.isChain_append, List.isChain_cons]
    refine ⟨hword.single, ⟨fun b hb => .inr (hrest.head b hb), hrest.single⟩, ?_⟩
    exact fun a ha _ _ => .inl (hword.last a ha)

/-- Words that are joined by spaces have no other blanks. -/
theorem isSpaced_intercalate {texts : List String} (h : ∀ text ∈ texts, IsWord text) :
    IsSpaced (" ".intercalate texts) := by
  induction texts with
  | nil => exact isSpaced_empty
  | cons text texts ih =>
    obtain ⟨htext, hothers⟩ := List.forall_mem_cons.mp h
    by_cases hlast : texts = []
    · rw [hlast, String.intercalate_singleton]
      exact htext.isSpaced
    · rw [String.intercalate_cons_of_ne_nil hlast]
      refine htext.isSpaced_append (ih hothers) fun hempty => hlast ?_
      -- the words of what is joined are the texts, and the empty text has none
      rw [← words_intercalate hothers, hempty]
      decide

/-! ### Folded texts -/

theorem onOneLine_of_lineBreak {text : String} (h : '\n' ∈ text.toList ∨ '\r' ∈ text.toList) :
    onOneLine text = " ".intercalate (words text) := by
  rw [onOneLine, if_pos (any_isLineBreak_iff.mpr h)]

theorem onOneLine_of_no_lineBreak {text : String}
    (h : ¬ ('\n' ∈ text.toList ∨ '\r' ∈ text.toList)) : onOneLine text = text := by
  rw [onOneLine, if_neg (mt any_isLineBreak_iff.mp h)]

/-- Single spaces are no line breaks, so that a text with no other blanks is kept. -/
theorem IsSpaced.onOneLine_eq {text : String} (h : IsSpaced text) : onOneLine text = text := by
  refine onOneLine_of_no_lineBreak ?_
  rintro (hmem | hmem)
  · cases h.spaces _ hmem (by decide)
  · cases h.spaces _ hmem (by decide)

/-- **Folding keeps the words.** A text and what it is folded into have the same words in the same
order, and folding once more changes nothing. If the text holds a line feed or a carriage return
then the only blanks of the result are single spaces between words. -/
theorem onOneLine_keeps_words (text : String) :
    words (onOneLine text) = words text ∧
    onOneLine (onOneLine text) = onOneLine text ∧
    ('\n' ∈ text.toList ∨ '\r' ∈ text.toList → IsSpaced (onOneLine text)) := by
  have hwords : ∀ word ∈ words text, IsWord word := fun _ => isWord_of_mem_words
  by_cases h : '\n' ∈ text.toList ∨ '\r' ∈ text.toList
  · have hspaced := isSpaced_intercalate hwords
    rw [onOneLine_of_lineBreak h]
    exact ⟨words_intercalate hwords, hspaced.onOneLine_eq, fun _ => hspaced⟩
  · rw [onOneLine_of_no_lineBreak h]
    exact ⟨rfl, onOneLine_of_no_lineBreak h, fun hbreak => absurd hbreak h⟩

end AvroTypings.Text
