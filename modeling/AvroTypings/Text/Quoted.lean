/-!
# Quoted literals

The literal of a text encloses it in double quotes and escapes what cannot stand between them: the
quote, the backslash and the control characters below the space. Everything else is copied, so the
literal of a text reads the same in JSON and in TypeScript.

## Main definitions

* `Text.quotedChar`: the characters that stand for one character inside a literal.
* `Text.quoted`: the literal of a text.
-/

namespace AvroTypings.Text

/-- What stands for a character inside a quoted literal. Control characters without an escape
letter of their own are written with two hexadecimal digits in lower case. -/
def quotedChar (c : Char) : List Char :=
  if c = '"' then ['\\', '"']
  else if c = '\\' then ['\\', '\\']
  else if c = '\x08' then ['\\', 'b']
  else if c = '\x0c' then ['\\', 'f']
  else if c = '\n' then ['\\', 'n']
  else if c = '\r' then ['\\', 'r']
  else if c = '\t' then ['\\', 't']
  else if c.toNat < 0x20 then
    ['\\', 'u', '0', '0', Nat.digitChar (c.toNat / 16), Nat.digitChar (c.toNat % 16)]
  else [c]

/-- The quoted literal of a text. -/
def quoted (text : String) : String :=
  String.ofList ('"' :: text.toList.flatMap quotedChar ++ ['"'])

end AvroTypings.Text
