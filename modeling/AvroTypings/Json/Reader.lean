import AvroTypings.Json.Numeral

/-!
# Reading a JSON text

The readers for strings, arrays, objects and values. Each consumes part of its text and hands on
what is left together with the fact that it is shorter, so that the loops over items and members
end because the text does. A value is read within a budget of levels: each array or object spends
one, and without a level left none may be opened.

## Main definitions

* `Json.stringBody`: the characters of a string, from behind its opening quote.
* `Json.value`: a value with at most the given number of levels.
* `Json.levels`: the number of levels of a text.
* `Json.parse`: the value of a whole text.
-/

namespace AvroTypings.Json

/-- Blanks between the tokens of a text. -/
def isSpacing (c : Char) : Bool := c == ' ' || c == '\n' || c == '\t' || c == '\r'

/-- The text from its first token on. -/
def skipSpacing (cs : List Char) : List Char := cs.dropWhile isSpacing

theorem length_skipSpacing_le (cs : List Char) : (skipSpacing cs).length ≤ cs.length :=
  (List.dropWhile_sublist _).length_le

/-! ### Strings -/

/-- The value of a hexadecimal digit. -/
def hexValue? (c : Char) : Option Nat :=
  if c.isDigit then some (c.toNat - '0'.toNat)
  else if 'a' ≤ c && c ≤ 'f' then some (c.toNat - 'a'.toNat + 10)
  else if 'A' ≤ c && c ≤ 'F' then some (c.toNat - 'A'.toNat + 10)
  else none

/-- The number that four hexadecimal digits denote. -/
def hexQuad? (a b c d : Char) : Option Nat := do
  let a ← hexValue? a
  let b ← hexValue? b
  let c ← hexValue? c
  let d ← hexValue? d
  return ((a * 16 + b) * 16 + c) * 16 + d

/-- Reads the four hexadecimal digits of an escape. -/
def hexEscape (cs : List Char) : Except Stop (Parsed Nat cs.length) :=
  match cs with
  | a :: b :: c :: d :: rest =>
    match hexQuad? a b c d with
    | some code => .ok ⟨code, rest, by simp only [List.length_cons]; omega⟩
    | none => .error ⟨.badEscape, a :: b :: c :: d :: rest, 4⟩
  | cs =>
    if Stop.byteLength cs < 4 then .error (.here .endInString []) else .error ⟨.badEscape, cs, 4⟩

/-- Reads the second half of a surrogate pair. -/
def lowSurrogate (cs : List Char) : Except Stop (Parsed Nat cs.length) :=
  match cs with
  | [] => .error (.here .endInString [])
  | [c] => .error (if c = '\\' then .here .endInString [] else .next .brokenSurrogatePair [c])
  | c :: d :: rest =>
    if c ≠ '\\' then .error (.next .brokenSurrogatePair (c :: d :: rest))
    else if d ≠ 'u' then .error (.next .brokenSurrogatePair (d :: rest))
    else do
      let low ← hexEscape rest
      if 0xDC00 ≤ low.value && low.value ≤ 0xDFFF then
        return low.weaken (by simp only [List.length_cons]; omega)
      else throw (.here .loneSurrogate low.rest)

/-- Reads an escape given by a code point or by a surrogate pair, from behind the letter `u`. -/
def unicodeEscape (cs : List Char) : Except Stop (Parsed Char cs.length) := do
  let high ← hexEscape cs
  if 0xDC00 ≤ high.value && high.value ≤ 0xDFFF then
    throw (.here .loneSurrogate high.rest)
  else if 0xD800 ≤ high.value && high.value ≤ 0xDBFF then
    let low ← lowSurrogate high.rest
    return ⟨Char.ofNat (0x10000 + (high.value - 0xD800) * 0x400 + (low.value - 0xDC00)), low.rest,
      Nat.lt_trans low.shorter high.shorter⟩
  else return ⟨Char.ofNat high.value, high.rest, high.shorter⟩

/-- The character that an escape letter stands for. -/
def escapeLetter? (c : Char) : Option Char :=
  match c with
  | '"' => some '"'
  | '\\' => some '\\'
  | '/' => some '/'
  | 'b' => some '\x08'
  | 'f' => some '\x0c'
  | 'n' => some '\n'
  | 'r' => some '\r'
  | 't' => some '\t'
  | _ => none

/-- Reads an escape from behind its backslash. -/
def escape (cs : List Char) : Except Stop (Parsed Char cs.length) :=
  match cs with
  | [] => .error (.here .endInString [])
  | c :: rest =>
    if c = 'u' then (unicodeEscape rest).map fun p => p.weaken (length_le_length_cons c rest)
    else
      match escapeLetter? c with
      | some letter => .ok ⟨letter, rest, length_lt_length_cons c rest⟩
      | none => .error (.next .badEscape (c :: rest))

/-- Reads the characters of a string up to its closing quote; `seen` holds those already read, the
last one first. -/
def stringBody {bound : Nat} (seen : List Char) (cs : List Char) (h : cs.length ≤ bound) :
    Except Stop (Parsed String bound) :=
  match cs with
  | [] => .error (.here .endInString [])
  | c :: rest =>
    if c = '"' then .ok ⟨String.ofList seen.reverse, rest, h⟩
    else if c = '\\' then
      match escape rest with
      | .error stop => .error stop
      | .ok escaped =>
        stringBody (escaped.value :: seen) escaped.rest
          (Nat.le_of_lt (Nat.lt_trans escaped.shorter h))
    else if c.toNat < 0x20 then .error (.next .controlCharacter (c :: rest))
    else stringBody (c :: seen) rest (Nat.le_of_lt h)
termination_by cs.length
decreasing_by
  · have := escaped.shorter
    simp only [List.length_cons]
    omega
  · simp

/-! ### Arrays and objects -/

/-- A reader of values. -/
abbrev ValueReader : Type := (cs : List Char) → Except Stop (Parsed Json cs.length)

/-- Reads the items behind the first one, up to the closing bracket; `seen` holds those already
read, the last one first. -/
def moreItems (item : ValueReader) {bound : Nat} (seen : List Json) (cs : List Char)
    (h : cs.length ≤ bound) : Except Stop (Parsed Json bound) :=
  match hcs : skipSpacing cs with
  | [] => .error (.next .endInList [])
  | c :: rest =>
    have hrest : rest.length < cs.length := by
      have := length_skipSpacing_le cs
      simp only [hcs, List.length_cons] at this
      omega
    if c = ']' then .ok ⟨.array seen.reverse, rest, by omega⟩
    else if c = ',' then
      match hitem : skipSpacing rest with
      | [] => .error (.next .endInValue [])
      | d :: tail =>
        if d = ']' then .error (.next .trailingComma (d :: tail))
        else
          match item (d :: tail) with
          | .error stop => .error stop
          | .ok read =>
            have hread : read.rest.length < cs.length := by
              have h₁ := read.shorter
              have h₂ := length_skipSpacing_le rest
              rw [hitem] at h₂
              omega
            moreItems item (read.value :: seen) read.rest (by omega)
    else .error (.next .noListSeparator (c :: rest))
termination_by cs.length

/-- Reads an array from behind its opening bracket. -/
def items (item : ValueReader) (cs : List Char) : Except Stop (Parsed Json (cs.length + 1)) :=
  match hcs : skipSpacing cs with
  | [] => .error (.next .endInList [])
  | c :: rest =>
    have hcs' : (c :: rest).length ≤ cs.length := hcs ▸ length_skipSpacing_le cs
    if c = ']' then .ok ⟨.array [], rest, by simp only [List.length_cons] at hcs'; omega⟩
    else
      match item (c :: rest) with
      | .error stop => .error stop
      | .ok read =>
        moreItems item [read.value] read.rest (by have := read.shorter; omega)

/-- Reads a member, from behind the opening quote of its name. -/
def member (item : ValueReader) (cs : List Char) :
    Except Stop (Parsed (String × Json) cs.length) := do
  let name ← stringBody [] cs (Nat.le_refl _)
  match hcolon : skipSpacing name.rest with
  | [] => throw (.next .endInObject [])
  | c :: rest =>
    if c ≠ ':' then throw (.next .noColon (c :: rest))
    else
      let read ← item rest
      return ⟨(name.value, read.value), read.rest, by
        have h₁ := read.shorter
        have h₂ := name.shorter
        have h₃ := length_skipSpacing_le name.rest
        simp only [hcolon, List.length_cons] at h₃
        omega⟩

/-- Reads the members behind the first one, up to the closing brace. A later member takes the place
of an earlier one with the same name. -/
def moreMembers (item : ValueReader) {bound : Nat} (seen : List (String × Json))
    (cs : List Char) (h : cs.length ≤ bound) : Except Stop (Parsed Json bound) :=
  match hcs : skipSpacing cs with
  | [] => .error (.next .endInObject [])
  | c :: rest =>
    have hrest : rest.length < cs.length := by
      have := length_skipSpacing_le cs
      simp only [hcs, List.length_cons] at this
      omega
    if c = '\x7d' then .ok ⟨.object seen, rest, by omega⟩
    else if c = ',' then
      match hname : skipSpacing rest with
      | [] => .error (.next .endInValue [])
      | d :: tail =>
        if d = '\x7d' then .error (.next .trailingComma (d :: tail))
        else if d = '"' then
          match member item tail with
          | .error stop => .error stop
          | .ok read =>
            have hread : read.rest.length < cs.length := by
              have h₁ := read.shorter
              have h₂ := length_skipSpacing_le rest
              simp only [hname, List.length_cons] at h₂
              omega
            moreMembers item (put read.value.1 read.value.2 seen) read.rest (by omega)
        else .error (.next .keyNotString (d :: tail))
    else .error (.next .noObjectSeparator (c :: rest))
termination_by cs.length

/-- Reads an object from behind its opening brace. -/
def members (item : ValueReader) (cs : List Char) : Except Stop (Parsed Json (cs.length + 1)) :=
  match hcs : skipSpacing cs with
  | [] => .error (.next .endInObject [])
  | c :: rest =>
    have hcs' : rest.length < cs.length := by
      have := length_skipSpacing_le cs
      simp only [hcs, List.length_cons] at this
      omega
    if c = '\x7d' then .ok ⟨.object [], rest, by omega⟩
    else if c = '"' then
      match member item rest with
      | .error stop => .error stop
      | .ok read =>
        moreMembers item [read.value] read.rest (by have := read.shorter; omega)
    else .error (.next .keyNotString (c :: rest))

/-! ### Values -/

/-- Reads the remaining letters of a word that denotes a value. -/
def word {bound : Nat} (value : Json) :
    (letters cs : List Char) → cs.length < bound → Except Stop (Parsed Json bound)
  | [], rest, h => .ok ⟨value, rest, h⟩
  | _ :: _, [], _ => .error (.here .endInValue [])
  | letter :: letters, c :: rest, h =>
    if c = letter then word value letters rest (Nat.lt_of_succ_lt h)
    else .error (.next .badWord (c :: rest))

/-- Reads a value that neither is an array nor an object, from its first character on. -/
def scalar (c : Char) (rest : List Char) : Except Stop (Parsed Json (rest.length + 1)) :=
  if c = 'n' then word .null ['u', 'l', 'l'] rest (length_lt_length_cons c rest)
  else if c = 't' then word (.bool true) ['r', 'u', 'e'] rest (length_lt_length_cons c rest)
  else if c = 'f' then word (.bool false) ['a', 'l', 's', 'e'] rest (length_lt_length_cons c rest)
  else if c = '"' then
    (stringBody [] rest (length_le_length_cons c rest)).map fun p =>
      ⟨.string p.value, p.rest, p.shorter⟩
  else if c = '-' || c.isDigit then
    (numeral (c :: rest)).map fun p => ⟨.number p.value, p.rest, p.shorter⟩
  else .error (.next .noValue (c :: rest))

/-- Reads a value in which at most `budget` arrays and objects are nested. -/
def value (budget : Nat) (cs : List Char) : Except Stop (Parsed Json cs.length) :=
  match hcs : skipSpacing cs with
  | [] => .error (.next .endInValue [])
  | c :: rest =>
    have h : rest.length + 1 ≤ cs.length := by
      have := length_skipSpacing_le cs
      rwa [hcs] at this
    if c = '[' then
      match budget with
      | 0 => .error (.next .tooDeep (c :: rest))
      | budget + 1 => (items (value budget) rest).map fun p => p.weaken h
    else if c = '\x7b' then
      match budget with
      | 0 => .error (.next .tooDeep (c :: rest))
      | budget + 1 => (members (value budget) rest).map fun p => p.weaken h
    else (scalar c rest).map fun p => p.weaken h

/-- The number of arrays and objects that a text may nest. -/
def levels : Nat := 127

/-- Reads a whole text: a value, and nothing but blanks behind it. -/
def readAll (cs : List Char) : Except Stop Json := do
  let read ← value levels cs
  match skipSpacing read.rest with
  | [] => return read.value
  | rest => throw (.next .trailingText rest)

/-- The value of a text, or its first fault. -/
def parse (text : String) : Except TextError Json :=
  match readAll text.toList with
  | .ok value => .ok value
  | .error stop => .error (stop.locate text)

end AvroTypings.Json
