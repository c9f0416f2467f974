import AvroTypings.Text.Quoted

/-!
# TypeScript declarations

The exports that typings consist of: an interface for a record, a constant object with its type of
values for an enum, and an alias for a type that has no declaration of its own.

## Main definitions

* `Declaration`: the three kinds of exports.
* `Declaration.render`: their texts.
-/

namespace AvroTypings

/-- An exported declaration. The fields of an interface are whole lines. -/
inductive Declaration where
  | interface (name : String) (fields : List String)
  | enum (name : String) (symbols : List String)
  | typeAlias (name : String) (target : String)
  deriving DecidableEq, Inhabited

namespace Declaration

/-- The exported name. -/
def name : Declaration → String
  | interface name _ => name
  | enum name _ => name
  | typeAlias name _ => name

/-- The entry of a symbol in the constant object of an enum. -/
def symbolEntry (symbol : String) : String := "  " ++ symbol ++ ": " ++ Text.quoted symbol

/-- The text of a declaration. -/
def render : Declaration → String
  | interface name fields =>
    "export interface " ++ name ++ " \x7b\n" ++ "\n".intercalate fields ++ "\n\x7d"
  | enum name symbols =>
    "export const " ++ name ++ " = \x7b\n" ++ ",\n".intercalate (symbols.map symbolEntry)
      ++ "\n\x7d as const;\n\n" ++ "export type " ++ name ++ " = typeof " ++ name
      ++ "[keyof typeof " ++ name ++ "];"
  | typeAlias name target => "export type " ++ name ++ " = " ++ target ++ ";"

end Declaration

end AvroTypings
