/-!
# Faults in a JSON text

What can be wrong with a text that should be a JSON value, and where. Places are counted as a text
editor for bytes would: lines from one, and in a line the bytes up to and including the offending
one.

## Main definitions

* `Json.Fault`: the ways in which a text fails to be a value, with their wording.
* `Json.Position`: a line and a column, `Json.Position.after` finds them for a number of bytes.
* `Json.TextError`: a fault and its place.
* `Json.Stop`: a fault as a reader meets it, with the text it had in front of it.
-/

namespace AvroTypings.Json

/-- The ways in which a text fails to be a JSON value. -/
inductive Fault where
  | endInValue
  | endInList
  | endInObject
  | endInString
  | noColon
  | noListSeparator
  | noObjectSeparator
  | badWord
  | noValue
  | badEscape
  | badNumber
  | outOfRange
  | loneSurrogate
  | brokenSurrogatePair
  | controlCharacter
  | keyNotString
  | trailingComma
  | trailingText
  | tooDeep
  deriving DecidableEq

namespace Fault

/-- The wording of a fault. -/
def message : Fault → String
  | endInValue => "EOF while parsing a value"
  | endInList => "EOF while parsing a list"
  | endInObject => "EOF while parsing an object"
  | endInString => "EOF while parsing a string"
  | noColon => "expected `:`"
  | noListSeparator => "expected `,` or `]`"
  | noObjectSeparator => "expected `,` or `\x7d`"
  | badWord => "expected ident"
  | noValue => "expected value"
  | badEscape => "invalid escape"
  | badNumber => "invalid number"
  | outOfRange => "number out of range"
  | loneSurrogate => "lone leading surrogate in hex escape"
  | brokenSurrogatePair => "unexpected end of hex escape"
  | controlCharacter => "control character (\\u0000-\\u001F) found while parsing a string"
  | keyNotString => "key must be a string"
  | trailingComma => "trailing comma"
  | trailingText => "trailing characters"
  | tooDeep => "recursion limit exceeded"

end Fault

/-- A place in a text: the line, counted from one, and the bytes passed in it. -/
structure Position where
  line : Nat
  column : Nat
  deriving DecidableEq

namespace Position

/-- The place after one more byte. A line feed starts the next line. -/
def advance (p : Position) (byte : UInt8) : Position :=
  if byte = 10 then ⟨p.line + 1, 0⟩ else ⟨p.line, p.column + 1⟩

/-- The place that the given number of bytes of a text leads to. -/
def after (text : String) (bytes : Nat) : Position :=
  (text.toUTF8.toList.take bytes).foldl advance ⟨1, 0⟩

end Position

/-- A fault in a text and its place. -/
structure TextError where
  fault : Fault
  position : Position
  deriving DecidableEq

namespace TextError

/-- The fault's wording followed by its place. -/
def message (e : TextError) : String :=
  e.fault.message ++ " at line " ++ toString e.position.line ++ " column "
    ++ toString e.position.column

end TextError

/-- A fault met by a reader: the text that was left, and how many bytes further the fault lies. -/
structure Stop where
  fault : Fault
  rest : List Char
  ahead : Nat

namespace Stop

/-- The number of bytes that characters take in UTF-8. -/
def byteLength (cs : List Char) : Nat := cs.foldl (fun bytes c => bytes + c.utf8Size) 0

/-- A fault where the reader stands. -/
def here (fault : Fault) (rest : List Char) : Stop := ⟨fault, rest, 0⟩

/-- A fault of the next byte. -/
def next (fault : Fault) (rest : List Char) : Stop := ⟨fault, rest, 1⟩

/-- The fault with its place in the whole text, never beyond the end of the text. -/
def locate (stop : Stop) (text : String) : TextError :=
  let size := text.utf8ByteSize
  ⟨stop.fault, .after text (min size (size - byteLength stop.rest + stop.ahead))⟩

end Stop

end AvroTypings.Json
