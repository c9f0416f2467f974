/-!
# White space and words

A documentation string may run over several lines, while a trailing comment has one. This file
fixes which characters separate words and folds such a string into a single line.

## Main definitions

* `Text.isBlank`: the Unicode property `White_Space`.
* `Text.words`: the maximal runs of characters that are not blank.
* `Text.onOneLine`: a text with a line break is reduced to its words, any other is kept.
* `Text.hanging`: a text whose further lines are moved to the right.
-/

namespace AvroTypings.Text

/-- The Unicode property `White_Space`. The information separators, the Mongolian vowel separator,
the zero width space and the byte order mark do not have it. -/
def isBlank (c : Char) : Bool :=
  let n := c.toNat
  (0x09 ≤ n && n ≤ 0x0D) || n == 0x20 || n == 0x85 || n == 0xA0 || n == 0x1680
    || (0x2000 ≤ n && n ≤ 0x200A) || n == 0x2028 || n == 0x2029 || n == 0x202F || n == 0x205F
    || n == 0x3000

/-- The words of a text: its maximal runs of characters that are not blank, in order. -/
def words (text : String) : List String :=
  ((text.toList.splitOnP isBlank).filter fun run => !run.isEmpty).map String.ofList

/-- A line feed or a carriage return. -/
def isLineBreak (c : Char) : Bool := c == '\n' || c == '\r'

/-- A text that holds a line break becomes its words, one space apart; any other text is kept as
it stands, blanks included. -/
def onOneLine (text : String) : String :=
  if text.toList.any isLineBreak then " ".intercalate (words text) else text

/-- Some spaces. -/
def spaces (count : Nat) : String := String.ofList (List.replicate count ' ')

/-- Moves the further lines of a text to the right, by as many columns as its first line stands
behind the margin. -/
def hanging (width : Nat) (text : String) : String :=
  String.ofList (text.toList.flatMap fun c =>
    if c = '\n' then '\n' :: List.replicate width ' ' else [c])

end AvroTypings.Text
