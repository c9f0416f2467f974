import AvroTypings.Json.Reader
import AvroTypings.Text.Quoted
import Mathlib.Tactic.SplitIfs

/-!
# Literals

A literal can be read from both ends. From its start it is read as a JSON string, which gives back
its text. From its end it is found by its quotes: inside of a literal every quote has a backslash in
front of it, so that the opening quote is the last one behind another character.

## Main definitions

* `Text.Escapes`: how a character can be written inside a literal.

## Main results

* `Text.stringBody_flatMap_quotedChar`: reading a literal as a JSON string gives back its text.
* `Text.exists_backslash_of_quote`: every quote inside of a literal follows a backslash.
* `Text.eq_of_append_quoted`: the literal at the end of a text can be told from what is before it.
-/

namespace AvroTypings.Text

/-- The ways in which a character is written inside a literal: as itself, with an escape letter, or
with the hexadecimal digits of its code. -/
inductive Escapes (c : Char) : List Char → Prop
  | plain (hquote : c ≠ '"') (hbackslash : c ≠ '\\') (hcontrol : ¬ c.toNat < 0x20) : Escapes c [c]
  | letter {letter : Char} (hread : Json.escapeLetter? letter = some c) : Escapes c ['\\', letter]
  | code {high low : Char} (hcontrol : c.toNat < 0x20)
      (hread : Json.hexQuad? '0' '0' high low = some c.toNat) :
      Escapes c ['\\', 'u', '0', '0', high, low]

theorem hexQuad?_digitChar :
    ∀ n < 0x20,
      Json.hexQuad? '0' '0' (Nat.digitChar (n / 16)) (Nat.digitChar (n % 16)) = some n := by
  decide

theorem escapes_quotedChar (c : Char) : Escapes c (quotedChar c) := by
  unfold quotedChar
  split_ifs with hquote hbackslash h h h h h hcontrol
  · exact .letter (congrArg some hquote.symm)
  · exact .letter (congrArg some hbackslash.symm)
  iterate 5
    · exact .letter (congrArg some h.symm)
  · exact .code hcontrol (hexQuad?_digitChar _ hcontrol)
  · exact .plain hquote hbackslash hcontrol

/-! ### Reading back -/

theorem escape_of_letter {letter c : Char} (hread : Json.escapeLetter? letter = some c)
    (rest : List Char) :
    Json.escape (letter :: rest) = .ok ⟨c, rest, Json.length_lt_length_cons letter rest⟩ := by
  have hne : letter ≠ 'u' := by
    rintro rfl
    cases hread
  simp only [Json.escape, hne, hread, if_false]

theorem escape_of_code {high low c : Char} (hcontrol : c.toNat < 0x20)
    (hread : Json.hexQuad? '0' '0' high low = some c.toNat) (rest : List Char) :
    ∃ h, Json.escape ('u' :: '0' :: '0' :: high :: low :: rest) = .ok ⟨c, rest, h⟩ := by
  have hlow : ¬ 0xDC00 ≤ c.toNat := by omega
  have hhigh : ¬ 0xD800 ≤ c.toNat := by omega
  refine ⟨by simp only [List.length_cons]; omega, ?_⟩
  simp [Json.escape, Json.unicodeEscape, Json.hexEscape, hread, hlow, hhigh, bind, Except.bind,
    Except.map, pure, Except.pure, Json.Parsed.weaken]

/-- Reading a string goes past a written character. -/
theorem stringBody_of_escapes {c : Char} {written rest seen : List Char} {bound : Nat}
    (h : Escapes c written) (hlength : (written ++ rest).length ≤ bound)
    (hrest : rest.length ≤ bound) :
    Json.stringBody seen (written ++ rest) hlength = Json.stringBody (c :: seen) rest hrest := by
  cases h with
  | plain hquote hbackslash hcontrol =>
    simp only [List.singleton_append]
    rw [Json.stringBody]
    simp only [hquote, hbackslash, hcontrol, if_false]
  | letter hread =>
    simp only [List.cons_append, List.nil_append]
    rw [Json.stringBody]
    simp [escape_of_letter hread]
  | code hcontrol hread =>
    simp only [List.cons_append, List.nil_append]
    obtain ⟨h, hescape⟩ := escape_of_code hcontrol hread rest
    rw [Json.stringBody]
    simp [hescape]

/-- Reading a string gives back the text that was written into the literal. -/
theorem stringBody_flatMap_quotedChar (letters rest seen : List Char) {bound : Nat}
    (hlength : (letters.flatMap quotedChar ++ '"' :: rest).length ≤ bound) :
    ∃ h, Json.stringBody seen (letters.flatMap quotedChar ++ '"' :: rest) hlength =
      .ok ⟨String.ofList (seen.reverse ++ letters), rest, h⟩ := by
  induction letters generalizing seen with
  | nil =>
    refine ⟨hlength, ?_⟩
    simp only [List.flatMap_nil, List.nil_append]
    rw [Json.stringBody]
    simp only [if_true, List.append_nil]
  | cons c letters ih =>
    simp only [List.flatMap_cons, List.append_assoc] at hlength ⊢
    have hrest := Nat.le_trans (List.suffix_append _ _).length_le hlength
    rw [stringBody_of_escapes (escapes_quotedChar c) hlength hrest]
    simpa using ih (c :: seen) hrest

/-- What stands between the quotes of a literal determines its text. -/
theorem eq_of_flatMap_quotedChar_eq {letters letters' : List Char}
    (heq : letters.flatMap quotedChar = letters'.flatMap quotedChar) : letters = letters' := by
  obtain ⟨bound, hbound⟩ : ∃ bound, (letters.flatMap quotedChar ++ ['"']).length ≤ bound :=
    ⟨_, Nat.le_refl _⟩
  obtain ⟨_, hread⟩ := stringBody_flatMap_quotedChar letters [] [] hbound
  obtain ⟨_, hread'⟩ := stringBody_flatMap_quotedChar letters' [] [] (heq ▸ hbound)
  simp only [heq, hread'] at hread
  exact String.ofList_inj.mp (by simpa using hread.symm)

/-! ### Quotes inside a literal -/

theorem isSome_hexValue?_of_hexQuad? {a b c d : Char} {n : Nat}
    (h : Json.hexQuad? a b c d = some n) :
    (Json.hexValue? c).isSome = true ∧ (Json.hexValue? d).isSome = true := by
  simp only [Json.hexQuad?, Option.bind_eq_bind, Option.bind_eq_some_iff] at h
  obtain ⟨_, _, _, _, _, hc, _, hd, _⟩ := h
  simp only [hc, hd, Option.isSome_some, and_self]

/-- A quote in a written character has a backslash right in front of it. -/
theorem Escapes.eq_of_quote {c : Char} {front back : List Char}
    (h : Escapes c (front ++ '"' :: back)) : front = ['\\'] := by
  generalize hwritten : front ++ '"' :: back = written at h
  have hmem : '"' ∈ written := hwritten ▸ List.mem_append_right _ List.mem_cons_self
  cases h with
  | plain hquote _ _ => exact absurd (List.mem_singleton.mp hmem).symm hquote
  | letter hread =>
    cases front with
    | nil => simp at hwritten
    | cons first front =>
      cases front with
      | nil => rw [(List.cons.inj hwritten).1]
      | cons second front => simp at hwritten
  | code _ hread =>
    -- hexadecimal digits are no quotes
    obtain ⟨hhigh, hlow⟩ := isSome_hexValue?_of_hexQuad? hread
    simp only [List.mem_cons, List.not_mem_nil, or_false, Char.reduceEq, false_or] at hmem
    rcases hmem with rfl | rfl
    · cases hhigh
    · cases hlow

/-- Between the quotes of a literal every quote has a backslash right in front of it. -/
theorem exists_backslash_of_quote {letters front back : List Char}
    (h : letters.flatMap quotedChar = front ++ '"' :: back) :
    ∃ before, front = before ++ ['\\'] := by
  induction letters generalizing front with
  | nil => simp at h
  | cons c letters ih =>
    rw [List.flatMap_cons] at h
    rcases List.append_eq_append_iff.mp h with ⟨middle, rfl, hrest⟩ | ⟨middle, hwritten, hrest⟩
    · obtain ⟨before, rfl⟩ := ih hrest
      exact ⟨quotedChar c ++ before, (List.append_assoc ..).symm⟩
    · cases middle with
      | nil =>
        obtain ⟨before, hbefore⟩ := @ih [] hrest.symm
        simp at hbefore
      | cons first middle =>
        obtain ⟨rfl, -⟩ := List.cons.inj hrest
        have hescapes := escapes_quotedChar c
        rw [hwritten] at hescapes
        exact ⟨[], hescapes.eq_of_quote⟩

/-- No literal starts inside of another one that ends at the same place. -/
theorem eq_nil_of_append_quote {front front' middle letters letters' : List Char}
    (hfront : front' ++ [' ', '"'] = front ++ [' ', '"'] ++ middle)
    (hbody : letters.flatMap quotedChar = middle ++ letters'.flatMap quotedChar) :
    middle = [] := by
  rcases List.eq_nil_or_concat middle with rfl | ⟨inner, last, rfl⟩
  · rfl
  · rw [List.concat_eq_append, ← List.append_assoc] at hfront
    have hsplit : (front' ++ [' ']) ++ ['"'] = (front ++ [' ', '"'] ++ inner) ++ [last] := by
      simpa using hfront
    obtain ⟨hspace, hlast⟩ := List.append_inj' hsplit rfl
    cases hlast
    rw [List.concat_eq_append, List.append_assoc] at hbody
    obtain ⟨before, rfl⟩ := exists_backslash_of_quote hbody
    -- the quote would have both a space and a backslash in front of it
    rw [← List.append_assoc] at hspace
    cases (List.append_inj' hspace rfl).2

/-- A literal at the end of a text, with a space in front of it, can be told from the text before
it. -/
theorem eq_of_append_quoted {front front' : List Char} {text text' : String}
    (h : front ++ ' ' :: (quoted text).toList = front' ++ ' ' :: (quoted text').toList) :
    front = front' ∧ text = text' := by
  have hopen : front ++ [' ', '"'] ++ text.toList.flatMap quotedChar =
      front' ++ [' ', '"'] ++ text'.toList.flatMap quotedChar := by
    refine (List.append_left_inj ['"']).mp ?_
    simpa [quoted] using h
  rcases List.append_eq_append_iff.mp hopen with ⟨middle, hfront, hbody⟩ | ⟨middle, hfront, hbody⟩
  · obtain rfl := eq_nil_of_append_quote hfront hbody
    rw [List.append_nil] at hfront
    exact ⟨(List.append_cancel_right hfront).symm,
      String.toList_inj.mp (eq_of_flatMap_quotedChar_eq hbody)⟩
  · obtain rfl := eq_nil_of_append_quote hfront hbody
    rw [List.append_nil] at hfront
    exact ⟨List.append_cancel_right hfront,
      (String.toList_inj.mp (eq_of_flatMap_quotedChar_eq hbody)).symm⟩

end AvroTypings.Text
