import AvroTypings.Text.Blank

/-!
# Reading type expressions

The grammar of the type expressions that typings use: names, string-keyed records, arrays, unions
and parentheses. An array is written behind its operand and binds more tightly than a union, while
a record encloses the type of its values. A text that the grammar reads denotes the alternatives of
a union; a type that is not a union has a single one.

The grammar is a relation between texts and alternatives, and it is unambiguous. The reason is that
a bar outside all brackets separates operands, and that the last character of an operand tells how
it is built.

## Main definitions

* `IsName`: possibly dotted identifiers.
* `Alternative`: the types that are not unions.
* `Reads`: the alternatives that a text denotes.
* `IsWide`: texts that are more than one operand.

## Main results

* `Reads.unique`: a text denotes at most one list of alternatives.
* `Reads.join`: texts joined by bars denote the alternatives of all of them.
* `not_reads_operand_of_isWide`: a text of several operands is not an operand.
-/

namespace AvroTypings

/-! ### Names -/

/-- The characters of identifiers. Beyond ASCII, every character that is not blank is counted as
one; none of these has another use in a type expression. -/
def isNameChar (c : Char) : Bool :=
  c.isAlphanum || c == '_' || c == '$' || (0x80 ≤ c.toNat && !Text.isBlank c)

/-- Whether a text is an identifier. -/
def isIdentifier (text : String) : Bool :=
  match text.toList with
  | [] => false
  | first :: rest => !first.isDigit && isNameChar first && rest.all isNameChar

/-- A possibly dotted identifier. -/
inductive IsName : String → Prop
  | identifier {text : String} (h : isIdentifier text = true) : IsName text
  | dotted {text rest : String} (h : isIdentifier text = true) (hrest : IsName rest) :
      IsName (text ++ "." ++ rest)

theorem isIdentifier_append {text suffix : String} (h : isIdentifier text = true)
    (hsuffix : suffix.toList.all isNameChar = true) : isIdentifier (text ++ suffix) = true := by
  unfold isIdentifier at h ⊢
  rw [String.toList_append]
  split at h
  · contradiction
  · simp_all

theorem IsName.append {text suffix : String} (h : IsName text)
    (hsuffix : suffix.toList.all isNameChar = true) : IsName (text ++ suffix) := by
  induction h with
  | identifier h => exact .identifier (isIdentifier_append h hsuffix)
  | dotted h _ ih =>
    rw [String.append_assoc]
    exact .dotted h ih

theorem all_isNameChar_of_isIdentifier {text : String} (h : isIdentifier text = true) :
    ∀ c ∈ text.toList, isNameChar c = true := by
  unfold isIdentifier at h
  split at h
  · contradiction
  · simp_all

theorem IsName.chars {text : String} (h : IsName text) :
    ∀ c ∈ text.toList, isNameChar c = true ∨ c = '.' := by
  induction h with
  | identifier h => exact fun c hc => .inl (all_isNameChar_of_isIdentifier h c hc)
  | dotted h _ ih =>
    intro c hc
    simp only [String.toList_append, List.mem_append] at hc
    rcases hc with (hc | hc) | hc
    · exact .inl (all_isNameChar_of_isIdentifier h c hc)
    · exact .inr (by simpa using hc)
    · exact ih c hc

/-- A name ends in a character of an identifier. -/
theorem IsName.getLast? {text : String} (h : IsName text) :
    ∃ c, text.toList.getLast? = some c ∧ isNameChar c = true := by
  induction h with
  | @identifier text h =>
    cases hlast : text.toList.getLast? with
    | none =>
      rw [List.getLast?_eq_none_iff] at hlast
      simp [isIdentifier, hlast] at h
    | some c =>
      exact ⟨c, rfl, all_isNameChar_of_isIdentifier h c (List.mem_of_getLast? hlast)⟩
  | dotted h _ ih =>
    obtain ⟨c, hc, hname⟩ := ih
    exact ⟨c, by rw [String.toList_append, List.getLast?_append, hc]; rfl, hname⟩

/-! ### The grammar -/

/-- A type that is not a union. The items of an array and the values of a string-keyed record are
given by their alternatives. -/
inductive Alternative where
  | name (text : String)
  | array (items : List Alternative)
  | record (values : List Alternative)

/-- How tightly a text holds together: as an operand of a union, or as a whole type. -/
inductive Binding where
  | operand
  | whole

/-- A text denotes the given alternatives. -/
inductive Reads : Binding → String → List Alternative → Prop
  | name {text : String} (h : IsName text) : Reads .operand text [.name text]
  | record {text : String} {values : List Alternative} (h : Reads .whole text values) :
      Reads .operand ("Record<string, " ++ text ++ ">") [.record values]
  | group {text : String} {alternatives : List Alternative} (h : Reads .whole text alternatives) :
      Reads .operand ("(" ++ text ++ ")") alternatives
  | array {text : String} {items : List Alternative} (h : Reads .operand text items) :
      Reads .operand (text ++ "[]") [.array items]
  | operand {text : String} {alternatives : List Alternative}
      (h : Reads .operand text alternatives) : Reads .whole text alternatives
  | union {text others : String} {alternatives more : List Alternative}
      (h : Reads .operand text alternatives) (hothers : Reads .whole others more) :
      Reads .whole (text ++ " | " ++ others) (alternatives ++ more)

/-- A text of more than one operand. -/
def IsWide (text : String) : Prop :=
  ∃ first others alternatives more, Reads .operand first alternatives ∧
    Reads .whole others more ∧ text = first ++ " | " ++ others

/-! ### Brackets -/

/-- The depth of brackets behind a text that starts at the given depth. There is none if the text
closes a bracket that is not open, or has a bar outside all brackets. -/
def depthAfter : Nat → List Char → Option Nat
  | depth, [] => some depth
  | depth, c :: rest =>
    if c = '(' ∨ c = '<' then depthAfter (depth + 1) rest
    else if c = ')' ∨ c = '>' then
      if depth = 0 then none else depthAfter (depth - 1) rest
    else if c = '|' ∧ depth = 0 then none
    else depthAfter depth rest

theorem depthAfter_append (depth : Nat) (xs ys : List Char) :
    depthAfter depth (xs ++ ys) = (depthAfter depth xs).bind (depthAfter · ys) := by
  induction xs generalizing depth with
  | nil => rfl
  | cons c xs ih =>
    rw [List.cons_append, depthAfter, depthAfter]
    split
    · exact ih _
    · split
      · split
        · rfl
        · exact ih _
      · split
        · rfl
        · exact ih _

theorem depthAfter_trans {before middle after : Nat} {s t : String}
    (hs : depthAfter before s.toList = some middle) (ht : depthAfter middle t.toList = some after) :
    depthAfter before (s ++ t).toList = some after := by
  rw [String.toList_append, depthAfter_append, hs, Option.bind_some, ht]

theorem depthAfter_of_plain {text : List Char} (depth : Nat)
    (h : ∀ c ∈ text, c ∉ ['(', '<', ')', '>', '|']) : depthAfter depth text = some depth := by
  induction text with
  | nil => rfl
  | cons c text ih =>
    have hc := h c List.mem_cons_self
    simp only [List.mem_cons, List.not_mem_nil, or_false, not_or] at hc
    rw [depthAfter, if_neg (by simp [hc]), if_neg (by simp [hc]), if_neg (by simp [hc])]
    exact ih fun d hd => h d (List.mem_cons_of_mem c hd)

theorem IsName.depthAfter {text : String} (h : IsName text) (depth : Nat) :
    depthAfter depth text.toList = some depth := by
  refine depthAfter_of_plain depth fun c hc hmem => ?_
  simp only [List.mem_cons, List.not_mem_nil, or_false] at hmem
  rcases h.chars c hc with hname | rfl
  · rcases hmem with rfl | rfl | rfl | rfl | rfl <;> revert hname <;> decide
  · revert hmem
    decide

/-- The depth at which a text may start without its own bars counting. -/
def Binding.enclosure : Binding → Nat
  | .operand => 0
  | .whole => 1

/-- An operand leaves the depth as it is, and so does a whole type inside brackets. -/
theorem Reads.depthAfter {binding : Binding} {text : String} {alternatives : List Alternative}
    (h : Reads binding text alternatives) (depth : Nat) :
    depthAfter (depth + binding.enclosure) text.toList = some (depth + binding.enclosure) := by
  induction h generalizing depth with
  | name h => exact h.depthAfter depth
  | record _ ih =>
    have hopen : AvroTypings.depthAfter depth "Record<string, ".toList = some (depth + 1) := by
      simp [AvroTypings.depthAfter]
    have hclose : AvroTypings.depthAfter (depth + 1) ">".toList = some depth := by
      simp [AvroTypings.depthAfter]
    exact depthAfter_trans (depthAfter_trans hopen (ih depth)) hclose
  | group _ ih =>
    have hopen : AvroTypings.depthAfter depth "(".toList = some (depth + 1) := by
      simp [AvroTypings.depthAfter]
    have hclose : AvroTypings.depthAfter (depth + 1) ")".toList = some depth := by
      simp [AvroTypings.depthAfter]
    exact depthAfter_trans (depthAfter_trans hopen (ih depth)) hclose
  | array _ ih =>
    have hbrackets : AvroTypings.depthAfter depth "[]".toList = some depth := by
      simp [AvroTypings.depthAfter]
    exact depthAfter_trans (ih depth) hbrackets
  | operand _ ih => exact ih (depth + 1)
  | union _ _ ih ihothers =>
    -- The bar does not count, since the whole stands inside brackets.
    have hbar : AvroTypings.depthAfter (depth + 1) " | ".toList = some (depth + 1) := by
      simp [AvroTypings.depthAfter]
    exact depthAfter_trans (depthAfter_trans (ih (depth + 1)) hbar) (ihothers depth)

/-- A bar behind an operand is outside all brackets. -/
theorem depthAfter_bar {text : List Char} (h : depthAfter 0 text = some 0) (rest : List Char) :
    depthAfter 0 (text ++ ' ' :: '|' :: rest) = none := by
  rw [depthAfter_append, h, Option.bind_some, depthAfter, depthAfter]
  rfl

/-- The first bar outside all brackets splits a text in only one way. -/
theorem eq_of_append_bar {a b a' b' : List Char} (ha : depthAfter 0 a = some 0)
    (ha' : depthAfter 0 a' = some 0)
    (h : a ++ ' ' :: '|' :: ' ' :: b = a' ++ ' ' :: '|' :: ' ' :: b') : a = a' ∧ b = b' := by
  -- Were one operand longer, it would run over the bar behind the other one.
  have longer {x y z u : List Char} (hx : depthAfter 0 x = some 0)
      (hxz : depthAfter 0 (x ++ z) = some 0)
      (heq : ' ' :: '|' :: y = z ++ ' ' :: '|' :: u) : z = [] := by
    match z with
    | [] => rfl
    | [c] => simp at heq
    | c :: d :: z =>
      simp only [List.cons_append, List.cons.injEq] at heq
      obtain ⟨rfl, rfl, -⟩ := heq
      rw [depthAfter_bar hx] at hxz
      contradiction
  rcases List.append_eq_append_iff.mp h with ⟨z, rfl, hz⟩ | ⟨z, rfl, hz⟩
  · obtain rfl := longer ha ha' hz
    simpa using hz
  · obtain rfl := longer ha' ha hz
    simpa using hz.symm

/-- A text of several operands is not an operand. -/
theorem not_reads_operand_of_isWide {text : String} {alternatives : List Alternative}
    (h : IsWide text) : ¬ Reads .operand text alternatives := by
  obtain ⟨first, others, _, _, hfirst, -, rfl⟩ := h
  intro hoperand
  have hdepth := hoperand.depthAfter 0
  have hbar := depthAfter_bar (hfirst.depthAfter 0) (' ' :: others.toList)
  simp_all [Binding.enclosure, String.toList_append]

/-! ### Unambiguity -/

/-- Texts that end in different characters are different. -/
theorem append_ne_append (c d : Char) {s t : String} (hs : s.toList.getLast? = some c)
    (ht : t.toList.getLast? = some d) (hne : c ≠ d) (x y : String) : x ++ s ≠ y ++ t := by
  intro heq
  have hlast := congrArg (fun text => text.toList.getLast?) heq
  simp only [String.toList_append, List.getLast?_append, hs, ht, Option.some_or] at hlast
  exact hne (Option.some.inj hlast)

/-- A name does not end in a bracket. -/
theorem IsName.ne_append {text s : String} (h : IsName text) (c : Char)
    (hs : s.toList.getLast? = some c) (hc : isNameChar c = false) (x : String) :
    x ++ s ≠ text := by
  rintro rfl
  obtain ⟨d, hd, hname⟩ := h.getLast?
  rw [String.toList_append, List.getLast?_append, hs] at hd
  cases hd
  rw [hc] at hname
  contradiction

section Inversion

variable {text : String} {alternatives : List Alternative}

theorem reads_name_iff (h : IsName text) :
    Reads .operand text alternatives ↔ alternatives = [.name text] := by
  constructor
  · intro hread
    cases hread with
    | name => rfl
    | record => exact absurd rfl (h.ne_append '>' rfl (by decide) _)
    | group => exact absurd rfl (h.ne_append ')' rfl (by decide) _)
    | array => exact absurd rfl (h.ne_append ']' rfl (by decide) _)
  · rintro rfl
    exact .name h

theorem reads_record_iff :
    Reads .operand ("Record<string, " ++ text ++ ">") alternatives ↔
      ∃ values, Reads .whole text values ∧ alternatives = [.record values] := by
  constructor
  · intro hread
    generalize htext : "Record<string, " ++ text ++ ">" = whole at hread
    cases hread with
    | name h => exact absurd htext (h.ne_append '>' rfl (by decide) _)
    | @record inner values h =>
      rw [String.append_left_inj, String.append_right_inj] at htext
      exact ⟨values, htext ▸ h, rfl⟩
    | group => exact absurd htext (append_ne_append '>' ')' rfl rfl (by decide) _ _)
    | array => exact absurd htext (append_ne_append '>' ']' rfl rfl (by decide) _ _)
  · rintro ⟨values, h, rfl⟩
    exact .record h

theorem reads_group_iff :
    Reads .operand ("(" ++ text ++ ")") alternatives ↔ Reads .whole text alternatives := by
  constructor
  · intro hread
    generalize htext : "(" ++ text ++ ")" = whole at hread
    cases hread with
    | name h => exact absurd htext (h.ne_append ')' rfl (by decide) _)
    | record => exact absurd htext (append_ne_append ')' '>' rfl rfl (by decide) _ _)
    | @group inner alternatives h =>
      rw [String.append_left_inj, String.append_right_inj] at htext
      exact htext ▸ h
    | array => exact absurd htext (append_ne_append ')' ']' rfl rfl (by decide) _ _)
  · exact .group

theorem reads_array_iff :
    Reads .operand (text ++ "[]") alternatives ↔
      ∃ items, Reads .operand text items ∧ alternatives = [.array items] := by
  constructor
  · intro hread
    generalize htext : text ++ "[]" = whole at hread
    cases hread with
    | name h => exact absurd htext (h.ne_append ']' rfl (by decide) _)
    | record => exact absurd htext (append_ne_append ']' '>' rfl rfl (by decide) _ _)
    | group => exact absurd htext (append_ne_append ']' ')' rfl rfl (by decide) _ _)
    | @array inner items h =>
      rw [String.append_left_inj] at htext
      exact ⟨items, htext ▸ h, rfl⟩
  · rintro ⟨items, h, rfl⟩
    exact .array h

theorem reads_union_iff {first others : String} {firstAlternatives : List Alternative}
    (hfirst : Reads .operand first firstAlternatives)
    (hothers : IsWide (first ++ " | " ++ others)) :
    Reads .whole (first ++ " | " ++ others) alternatives ↔
      ∃ more more', Reads .operand first more ∧ Reads .whole others more' ∧
        alternatives = more ++ more' := by
  constructor
  · intro hread
    generalize htext : first ++ " | " ++ others = whole at hread
    cases hread with
    | operand h => exact absurd h (not_reads_operand_of_isWide (htext ▸ hothers))
    | @union first' others' more more' h h' =>
      have heq := congrArg String.toList htext
      simp only [String.toList_append, List.append_assoc] at heq
      obtain ⟨hfirst', hothers'⟩ := eq_of_append_bar (hfirst.depthAfter 0) (h.depthAfter 0) heq
      obtain rfl := String.toList_injective hfirst'
      obtain rfl := String.toList_injective hothers'
      exact ⟨more, more', h, h', rfl⟩
  · rintro ⟨more, more', h, h', rfl⟩
    exact .union h h'

end Inversion

/-- **Unambiguity.** A text denotes at most one list of alternatives. -/
theorem Reads.unique {binding : Binding} {text : String} {alternatives others : List Alternative}
    (h : Reads binding text alternatives) (h' : Reads binding text others) :
    alternatives = others := by
  induction h generalizing others with
  | name h => exact ((reads_name_iff h).mp h').symm
  | record _ ih =>
    obtain ⟨values, hvalues, rfl⟩ := reads_record_iff.mp h'
    rw [ih hvalues]
  | group _ ih => exact ih (reads_group_iff.mp h')
  | array _ ih =>
    obtain ⟨items, hitems, rfl⟩ := reads_array_iff.mp h'
    rw [ih hitems]
  | operand h ih =>
    cases h' with
    | operand h' => exact ih h'
    | union hfirst hothers =>
      exact absurd h (not_reads_operand_of_isWide ⟨_, _, _, _, hfirst, hothers, rfl⟩)
  | union hfirst hothers ih ihothers =>
    have hwide := (⟨_, _, _, _, hfirst, hothers, rfl⟩ : IsWide _)
    obtain ⟨more, more', hmore, hmore', rfl⟩ := (reads_union_iff hfirst hwide).mp h'
    rw [ih hmore, ihothers hmore']

/-! ### Texts put together -/

section Composition

variable {text others : String} {alternatives more : List Alternative}

theorem Reads.ne_nil {binding : Binding} (h : Reads binding text alternatives) :
    alternatives ≠ [] := by
  induction h with
  | name => simp
  | record => simp
  | group _ ih => exact ih
  | array => simp
  | operand _ ih => exact ih
  | union _ _ ih _ => simp [ih]

/-- Two texts with a bar between them denote the alternatives of both. -/
theorem Reads.append_bar {binding : Binding} (h : Reads binding text alternatives)
    (hothers : Reads .whole others more) :
    Reads .whole (text ++ " | " ++ others) (alternatives ++ more) := by
  induction h with
  | name h => exact .union (.name h) hothers
  | record h _ => exact .union (.record h) hothers
  | group h _ => exact .union (.group h) hothers
  | array h _ => exact .union (.array h) hothers
  | operand h _ => exact .union h hothers
  | @union first rest _ _ h _ _ ih =>
    have hassoc : first ++ " | " ++ rest ++ " | " ++ others =
        first ++ " | " ++ (rest ++ " | " ++ others) := by
      simp only [String.append_assoc]
    rw [hassoc, List.append_assoc]
    exact .union h ih

theorem isWide_append_bar (h : Reads .whole text alternatives)
    (hothers : Reads .whole others more) :
    IsWide (text ++ " | " ++ others) := by
  cases h with
  | operand h => exact ⟨_, _, _, _, h, hothers, rfl⟩
  | union h h' =>
    exact ⟨_, _, _, _, h, h'.append_bar hothers, by simp only [String.append_assoc]⟩

theorem Reads.operand_or_isWide (h : Reads .whole text alternatives) :
    Reads .operand text alternatives ∨ IsWide text := by
  cases h with
  | operand h => exact .inl h
  | union h h' => exact .inr ⟨_, _, _, _, h, h', rfl⟩

/-- The brackets of an array belong to the last operand of the text before them. -/
theorem Reads.exists_array {binding : Binding} (h : Reads binding text alternatives) :
    ∃ more, Reads .whole (text ++ "[]") more := by
  induction h with
  | name h => exact ⟨_, .operand (.array (.name h))⟩
  | record h _ => exact ⟨_, .operand (.array (.record h))⟩
  | group h _ => exact ⟨_, .operand (.array (.group h))⟩
  | array h _ => exact ⟨_, .operand (.array (.array h))⟩
  | operand h _ => exact ⟨_, .operand (.array h)⟩
  | union h _ _ ih =>
    obtain ⟨more, hmore⟩ := ih
    exact ⟨_, by rw [String.append_assoc]; exact .union h hmore⟩

theorem isWide_array_iff (h : Reads .whole text alternatives) :
    IsWide (text ++ "[]") ↔ IsWide text := by
  constructor
  · intro hwide
    rcases h.operand_or_isWide with hoperand | htext
    · exact absurd (Reads.array hoperand) (not_reads_operand_of_isWide hwide)
    · exact htext
  · rintro ⟨first, rest, _, _, hfirst, hrest, rfl⟩
    obtain ⟨_, harray⟩ := hrest.exists_array
    exact ⟨first, rest ++ "[]", _, _, hfirst, harray, by rw [String.append_assoc]⟩

/-- A text with the brackets of an array behind it denotes an array of what the text denotes,
unless the text has several operands. -/
theorem reads_array_whole_iff (h : Reads .whole text alternatives) :
    Reads .whole (text ++ "[]") [.array alternatives] ↔ ¬ IsWide text := by
  constructor
  · rintro hread ⟨first, rest, firstAlternatives, _, hfirst, hrest, rfl⟩
    obtain ⟨more, hmore⟩ := hrest.exists_array
    have hboth : Reads .whole (first ++ " | " ++ rest ++ "[]") (firstAlternatives ++ more) := by
      rw [String.append_assoc]
      exact .union hfirst hmore
    -- There is an alternative on either side of the bar, so the array is not the only one.
    have hlength := congrArg List.length (hread.unique hboth)
    have hfirst' := List.length_pos_iff.mpr hfirst.ne_nil
    have hmore' := List.length_pos_iff.mpr hmore.ne_nil
    simp only [List.length_cons, List.length_nil, List.length_append] at hlength
    omega
  · intro hnarrow
    rcases h.operand_or_isWide with hoperand | hwide
    · exact .operand (.array hoperand)
    · exact absurd hwide hnarrow

end Composition

/-- Texts joined by bars denote the alternatives of all of them. -/
theorem Reads.join {texts : List String} (hne : texts ≠ [])
    (h : ∀ text ∈ texts, ∃ alternatives, Reads .whole text alternatives) :
    ∃ alternatives, Reads .whole (" | ".intercalate texts) alternatives ∧
      ∀ a, a ∈ alternatives ↔ ∃ text ∈ texts, ∃ own, Reads .whole text own ∧ a ∈ own := by
  induction texts with
  | nil => contradiction
  | cons text texts ih =>
    obtain ⟨own, hown⟩ := h text List.mem_cons_self
    have hmem (a : Alternative) : (∃ other, Reads .whole text other ∧ a ∈ other) ↔ a ∈ own := by
      constructor
      · rintro ⟨other, hother, ha⟩
        exact hother.unique hown ▸ ha
      · exact fun ha => ⟨own, hown, ha⟩
    cases texts with
    | nil =>
      refine ⟨own, by rwa [String.intercalate_singleton], fun a => ?_⟩
      simp [hmem]
    | cons next rest =>
      obtain ⟨more, hmore, hmore'⟩ :=
        ih (by simp) fun other ho => h other (List.mem_cons_of_mem _ ho)
      refine ⟨own ++ more, ?_, fun a => ?_⟩
      · rw [String.intercalate_cons_cons]
        exact hown.append_bar hmore
      · rw [List.mem_append, hmore', ← hmem a]
        simp

theorem isWide_join {text next : String} {rest : List String}
    (h : ∀ other ∈ text :: next :: rest, ∃ alternatives, Reads .whole other alternatives) :
    IsWide (" | ".intercalate (text :: next :: rest)) := by
  obtain ⟨own, hown⟩ := h text List.mem_cons_self
  obtain ⟨more, hmore, -⟩ := Reads.join (List.cons_ne_nil next rest) fun other ho =>
    h other (List.mem_cons_of_mem _ ho)
  rw [String.intercalate_cons_cons]
  exact isWide_append_bar hown hmore

end AvroTypings
