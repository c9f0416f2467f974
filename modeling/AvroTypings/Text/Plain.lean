/-!
# Plain text

A terminal takes some characters as commands: single control characters, and sequences that an
escape character opens. This file takes both out of a text, so that only what would be shown is
left.

Sequences are read byte by byte, since a byte inside a character can end one. A tab, line feed, form
feed or carriage return is shown even inside a sequence, if the sequence is not a string. It
suspends the sequence: what follows is shown as well, until the next control character resumes it. A
character beyond ASCII drops a suspended sequence.

## Main definitions

* `Text.Sequence`: where a reader of sequences stands.
* `Text.plain`: what is left of a text.
-/

namespace AvroTypings.Text

/-- Where a reader of terminal sequences stands. -/
inductive Sequence where
  /-- In no sequence. -/
  | outside
  /-- Behind an escape character. -/
  | escape
  /-- Behind an escape character and a byte that announces the last one. -/
  | announced
  /-- In a control sequence. -/
  | control
  /-- At the start of a device control string. -/
  | deviceStart
  /-- In the parameters of a device control string. -/
  | deviceParameters
  /-- Behind the parameters of a device control string. -/
  | deviceIntermediates
  /-- In the body of a string that a string terminator ends. -/
  | string
  /-- In a command to the operating system, which a bell ends. -/
  | command
  deriving DecidableEq

namespace Sequence

/-- Where the reader stands after a byte. -/
def next (s : Sequence) (byte : Nat) : Sequence :=
  if byte = 0x1B then escape
  else if byte = 0x18 || byte = 0x1A then outside
  else
    match s with
    | outside => outside
    | escape =>
      if 0x20 ≤ byte && byte ≤ 0x2F then announced
      else if byte = 0x50 then deviceStart
      else if byte = 0x5B then control
      else if byte = 0x5D then command
      else if byte = 0x58 || byte = 0x5E || byte = 0x5F then string
      else if 0x30 ≤ byte && byte ≤ 0x7E then outside
      else escape
    | announced => if 0x30 ≤ byte && byte ≤ 0x7E then outside else announced
    | control => if 0x40 ≤ byte && byte ≤ 0x7E then outside else control
    | deviceStart =>
      if 0x20 ≤ byte && byte ≤ 0x2F then deviceIntermediates
      else if 0x30 ≤ byte && byte ≤ 0x3F then deviceParameters
      else if 0x40 ≤ byte && byte ≤ 0x7E then string
      else deviceStart
    | deviceParameters =>
      if 0x20 ≤ byte && byte ≤ 0x2F then deviceIntermediates
      else if 0x3C ≤ byte && byte ≤ 0x7E then string
      else deviceParameters
    | deviceIntermediates => if 0x30 ≤ byte && byte ≤ 0x7E then string else deviceIntermediates
    | string => if byte = 0x9C then outside else string
    | command => if byte = 0x07 then outside else command

/-- Where the reader stands after the bytes of a character. -/
def past (s : Sequence) (c : Char) : Sequence :=
  (String.utf8EncodeChar c).foldl (fun s byte => s.next byte.toNat) s

/-- Whether a blank is shown in the middle of a sequence. -/
def showsBlanks : Sequence → Bool
  | escape | announced | control => true
  | _ => false

end Sequence

/-- The blanks that a terminal shows. -/
def isShownBlank (c : Char) : Bool := c = '\t' || c = '\n' || c = '\x0c' || c = '\r'

/-- The characters left of a text that starts in a sequence, which may be suspended. -/
def plainFrom (s : Sequence) (suspended : Bool) : List Char → List Char
  | [] => []
  | c :: rest =>
    if s = .outside || suspended then
      if 0x80 ≤ c.toNat then c :: plainFrom .outside false rest
      else if isShownBlank c || (0x20 ≤ c.toNat && c.toNat < 0x7F) then
        c :: plainFrom s suspended rest
      else plainFrom (s.past c) false rest
    else if s.showsBlanks && isShownBlank c then c :: plainFrom s true rest
    else plainFrom (s.past c) false rest

/-- What is left of a text without control characters and terminal sequences. -/
def plain (text : String) : String := String.ofList (plainFrom .outside false text.toList)

end AvroTypings.Text
