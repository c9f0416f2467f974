import AvroTypings.Proofs.Literals
import AvroTypings.Text.Blank
import AvroTypings.TypeScript.Declaration
import Mathlib.Data.List.Induction

/-!
# Reading a declaration off its text

The text of a declaration determines the declaration. It starts with the keyword of its kind and its
name, each up to the next space, and what follows is different for each kind. The lines of an
interface are found again between line feeds.

The symbols of an enum are harder to find: a symbol is any text, and it stands in its entry as it
is, so that a comma, a colon or a line break inside of it reads like the end of the entry. But
behind it stands its literal, and the last literal can be found from the end of the text. It gives
the last symbol, and with it the whole last entry.

## Main definitions

* `Text.IsUnbroken`, `Text.AreLines`: texts without white space, and lines of an interface.
* `Declaration.Readable`: the declarations that can be read off their texts.

## Main results

* `Declaration.entries_injective`: the entries of an enum give its symbols.
* `Declaration.render_eq_render_iff`: the text of a declaration gives the declaration.
-/

namespace AvroTypings

namespace Text

/-! ### Words and lines -/

/-- A text without white space. -/
def IsUnbroken (text : String) : Prop := ∀ c ∈ text.toList, isBlank c = false

instance (text : String) : Decidable (IsUnbroken text) :=
  List.decidableBAll (fun c => isBlank c = false) text.toList

theorem IsUnbroken.takeWhile {word : String} (h : IsUnbroken word) (rest : List Char) :
    (word.toList ++ ' ' :: rest).takeWhile (· ≠ ' ') = word.toList := by
  have hne : ∀ c ∈ word.toList, decide (c ≠ ' ') = true := by
    intro c hc
    refine decide_eq_true ?_
    rintro rfl
    cases h ' ' hc
  rw [List.takeWhile_append_of_pos hne]
  simp

/-- The word in front of a space can be told from what follows. -/
theorem IsUnbroken.append_inj {word word' rest rest' : String} (h : IsUnbroken word)
    (h' : IsUnbroken word') (heq : word ++ " " ++ rest = word' ++ " " ++ rest') :
    word = word' ∧ rest = rest' := by
  have hlist : word.toList ++ ' ' :: rest.toList = word'.toList ++ ' ' :: rest'.toList := by
    simpa using congrArg String.toList heq
  have hword := congrArg (List.takeWhile (· ≠ ' ')) hlist
  rw [h.takeWhile, h'.takeWhile, String.toList_inj] at hword
  rw [hword, String.append_right_inj] at heq
  exact ⟨hword, heq⟩

/-- Lines as they stand in an interface: not empty, and without a line feed. -/
def AreLines (lines : List String) : Prop := ∀ line ∈ lines, line ≠ "" ∧ '\n' ∉ line.toList

theorem AreLines.splitOn {lines : List String} (h : AreLines lines) :
    ("\n".intercalate lines).toList.splitOn '\n' =
      if lines = [] then [[]] else lines.map String.toList := by
  split
  · next hnil => simp [hnil]
  · next hne =>
    rw [String.toList_intercalate]
    refine List.splitOn_intercalate '\n' (fun letters hmem => ?_) (by simpa using hne)
    obtain ⟨line, hline, rfl⟩ := List.mem_map.mp hmem
    exact (h line hline).2

theorem AreLines.map_toList_ne {lines : List String} (h : AreLines lines) :
    lines.map String.toList ≠ [[]] := by
  intro heq
  obtain ⟨line, rfl, hline⟩ := List.map_eq_singleton_iff.mp heq
  exact (h line List.mem_cons_self).1 (String.toList_eq_nil_iff.mp hline)

/-- Lines can be found again between line feeds. -/
theorem AreLines.eq_of_intercalate {lines lines' : List String} (h : AreLines lines)
    (h' : AreLines lines') (heq : "\n".intercalate lines = "\n".intercalate lines') :
    lines = lines' := by
  have hsplit := congrArg (fun text : String => text.toList.splitOn '\n') heq
  simp only [h.splitOn, h'.splitOn] at hsplit
  split at hsplit
  · next hnil =>
    split at hsplit
    · next hnil' => rw [hnil, hnil']
    · exact absurd hsplit.symm h'.map_toList_ne
  · split at hsplit
    · exact absurd hsplit h.map_toList_ne
    · exact (List.map_inj_right fun _ _ => String.toList_inj.mp).mp hsplit

end Text

namespace Declaration

/-! ### Entries of an enum -/

/-- The entries of an enum. -/
def entries (symbols : List String) : String := ",\n".intercalate (symbols.map symbolEntry)

/-- What stands in front of an entry that follows those of the given symbols. -/
def entriesBefore (symbols : List String) : String :=
  if symbols = [] then "" else entries symbols ++ ",\n"

theorem entries_concat (symbols : List String) (symbol : String) :
    entries (symbols ++ [symbol]) = entriesBefore symbols ++ symbolEntry symbol := by
  unfold entriesBefore
  split
  · next h => simp [h, entries]
  · next h =>
    rw [entries, List.map_append, String.intercalate_append_of_ne_nil (by simpa using h) (by simp)]
    simp [entries]

/-- The last entry ends in a space and the literal of its symbol. -/
theorem toList_entries_concat (symbols : List String) (symbol : String) :
    (entries (symbols ++ [symbol])).toList =
      (entriesBefore symbols ++ ("  " ++ symbol ++ ":")).toList ++
        ' ' :: (Text.quoted symbol).toList := by
  simp [entries_concat, symbolEntry]

theorem entries_concat_ne_empty (symbols : List String) (symbol : String) :
    entries (symbols ++ [symbol]) ≠ "" := by
  intro heq
  have hlist := congrArg String.toList heq
  rw [toList_entries_concat] at hlist
  simp at hlist

/-- The last symbol can be told from the entries, and with it what stands in front of its entry. -/
theorem entries_concat_inj {symbols symbols' : List String} {symbol symbol' : String}
    (heq : entries (symbols ++ [symbol]) = entries (symbols' ++ [symbol'])) :
    entriesBefore symbols = entriesBefore symbols' ∧ symbol = symbol' := by
  have hends := congrArg String.toList heq
  rw [toList_entries_concat, toList_entries_concat] at hends
  obtain ⟨hfront, rfl⟩ := Text.eq_of_append_quoted hends
  rw [String.toList_inj, String.append_left_inj] at hfront
  exact ⟨hfront, rfl⟩

theorem entriesBefore_inj {symbols symbols' : List String}
    (hentries : entries symbols = entries symbols' → symbols = symbols')
    (heq : entriesBefore symbols = entriesBefore symbols') : symbols = symbols' := by
  unfold entriesBefore at heq
  split at heq
  · next hnil =>
    split at heq
    · next hnil' => rw [hnil, hnil']
    · simp at heq
  · split at heq
    · simp at heq
    · exact hentries ((String.append_left_inj _).mp heq)

/-- The entries of an enum determine its symbols. -/
theorem entries_injective : Function.Injective entries := by
  intro symbols
  -- the symbols are found from the last one to the first
  induction symbols using List.reverseRecOn with
  | nil =>
    intro symbols' heq
    rcases List.eq_nil_or_concat symbols' with rfl | ⟨others, other, rfl⟩
    · rfl
    · rw [List.concat_eq_append] at heq
      exact absurd heq.symm (entries_concat_ne_empty others other)
  | append_singleton symbols symbol ih =>
    intro symbols' heq
    rcases List.eq_nil_or_concat symbols' with rfl | ⟨others, other, rfl⟩
    · exact absurd heq (entries_concat_ne_empty symbols symbol)
    · rw [List.concat_eq_append] at heq ⊢
      obtain ⟨hbefore, rfl⟩ := entries_concat_inj heq
      rw [entriesBefore_inj (fun h => ih h) hbefore]

/-! ### Declarations -/

/-- The keyword of a kind of declarations. -/
def keyword : Declaration → String
  | interface _ _ => "interface"
  | enum _ _ => "const"
  | typeAlias _ _ => "type"

/-- The lines of an interface. -/
def lines : Declaration → List String
  | interface _ fields => fields
  | _ => []

/-- What follows the name of a declaration. -/
def body : Declaration → String
  | interface _ fields => "\x7b\n" ++ "\n".intercalate fields ++ "\n\x7d"
  | enum name symbols =>
    "= \x7b\n" ++ entries symbols ++ ("\n\x7d as const;\n\n" ++ "export type " ++ name ++
      " = typeof " ++ name ++ "[keyof typeof " ++ name ++ "];")
  | typeAlias _ target => "= " ++ target ++ ";"

/-- A declaration whose name has no white space and whose lines, if it is an interface, are not
empty and hold no line feed. Symbols and targets are any texts. -/
structure Readable (d : Declaration) : Prop where
  name : Text.IsUnbroken d.name
  lines : Text.AreLines d.lines

/-- The text of a declaration starts with words, each with a space behind it. -/
theorem render_eq_words (d : Declaration) :
    d.render = "export " ++ (d.keyword ++ " " ++ (d.name ++ " " ++ d.body)) := by
  unfold render
  cases d with
  | interface name fields =>
    have hwords : "export interface " = "export " ++ "interface" ++ " " := by decide
    have hopen : " \x7b\n" = " " ++ "\x7b\n" := by decide
    simp only [hwords, hopen, keyword, Declaration.name, body, String.append_assoc]
  | enum name symbols =>
    have hwords : "export const " = "export " ++ "const" ++ " " := by decide
    have hopen : " = \x7b\n" = " " ++ "= \x7b\n" := by decide
    simp only [hwords, hopen, keyword, Declaration.name, body, entries, String.append_assoc]
  | typeAlias name target =>
    have hwords : "export type " = "export " ++ "type" ++ " " := by decide
    have hequals : " = " = " " ++ "= " := by decide
    simp only [hwords, hequals, keyword, Declaration.name, body, String.append_assoc]

theorem isUnbroken_keyword (d : Declaration) : Text.IsUnbroken d.keyword := by
  cases d <;> simp only [keyword] <;> decide

/-- Declarations with the same words in front and the same rest are the same. -/
theorem eq_of_body_eq {d d' : Declaration} (h : Text.AreLines d.lines)
    (h' : Text.AreLines d'.lines) (hkeyword : d.keyword = d'.keyword) (hname : d.name = d'.name)
    (hbody : d.body = d'.body) : d = d' := by
  cases d with
  | interface name fields =>
    cases d' with
    | interface name' fields' =>
      obtain rfl : name = name' := hname
      rw [body, body, String.append_left_inj, String.append_right_inj] at hbody
      obtain rfl : fields = fields' := h.eq_of_intercalate h' hbody
      rfl
    | _ => simp [keyword] at hkeyword
  | enum name symbols =>
    cases d' with
    | enum name' symbols' =>
      obtain rfl : name = name' := hname
      rw [body, body, String.append_left_inj, String.append_right_inj] at hbody
      obtain rfl : symbols = symbols' := entries_injective hbody
      rfl
    | _ => simp [keyword] at hkeyword
  | typeAlias name target =>
    cases d' with
    | typeAlias name' target' =>
      obtain rfl : name = name' := hname
      rw [body, body, String.append_left_inj, String.append_right_inj] at hbody
      obtain rfl : target = target' := hbody
      rfl
    | _ => simp [keyword] at hkeyword

/-- **Reading a declaration off its text.** Two declarations with names without white space, and
with lines that are not empty and hold no line feed, have the same text only if they are the same:
of the same kind and name, and with the same lines, symbols or target in the same order. -/
theorem render_eq_render_iff {d d' : Declaration} (h : d.Readable) (h' : d'.Readable) :
    d.render = d'.render ↔ d = d' := by
  constructor
  · intro heq
    rw [render_eq_words, render_eq_words, String.append_right_inj] at heq
    obtain ⟨hkeyword, hrest⟩ := d.isUnbroken_keyword.append_inj d'.isUnbroken_keyword heq
    obtain ⟨hname, hbody⟩ := h.name.append_inj h'.name hrest
    exact eq_of_body_eq h.lines h'.lines hkeyword hname hbody
  · rintro rfl
    rfl

/-- Two symbols, and a single one that reads like both of them up to the last literal. -/
theorem lookalike_symbols_are_told_apart :
    let letters : Declaration := .enum "Letter" ["A", "B"]
    let lookalike : Declaration := .enum "Letter" ["A: \"A\",\n  B"]
    (letters.Readable ∧ lookalike.Readable) ∧ letters.render ≠ lookalike.render := by
  intro letters lookalike
  have hletters : letters.Readable := ⟨by decide, List.forall_mem_nil _⟩
  have hlookalike : lookalike.Readable := ⟨by decide, List.forall_mem_nil _⟩
  refine ⟨⟨hletters, hlookalike⟩, fun heq => ?_⟩
  have hsame := (render_eq_render_iff hletters hlookalike).mp heq
  simp [letters, lookalike] at hsame

end Declaration

end AvroTypings
