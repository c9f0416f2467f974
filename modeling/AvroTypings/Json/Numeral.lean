import AvroTypings.Json.Basic
import AvroTypings.Json.Fault

/-!
# Numerals

The numerals of a JSON text and the numbers they denote. A numeral without fraction and exponent
denotes an integer as long as it fits 64 bits. Every other numeral denotes the double that one
multiplication or division by a power of ten yields from a significand of at most 64 bits: digits
that would make the significand larger are only counted before the point, and dropped behind it.

## Main definitions

* `Json.Parsed`: what a reader found, and the shorter text that is left.
* `Json.gather`: the significand that a run of digits makes.
* `Json.Number.ofParts`: the double of a significand and a decimal exponent.
* `Json.numeral`: the reader.
-/

namespace AvroTypings.Json

/-- What a reader found, and the text that is left, which is shorter than `bound`. -/
structure Parsed (α : Type) (bound : Nat) where
  value : α
  rest : List Char
  shorter : rest.length < bound

namespace Parsed

/-- The text that is left stays shorter than any larger bound. -/
def weaken {α : Type} {n m : Nat} (p : Parsed α n) (h : n ≤ m) : Parsed α m :=
  ⟨p.value, p.rest, Nat.lt_of_lt_of_le p.shorter h⟩

end Parsed

theorem length_lt_length_cons (c : Char) (cs : List Char) : cs.length < (c :: cs).length :=
  Nat.lt_succ_self _

theorem length_le_length_cons (c : Char) (cs : List Char) : cs.length ≤ (c :: cs).length :=
  Nat.le_succ _

/-- The value of a decimal digit. -/
def digitValue (c : Char) : Nat := c.toNat - '0'.toNat

/-- The decimal digits at the head of a text. -/
def digits (cs : List Char) : List Nat := (cs.takeWhile Char.isDigit).map digitValue

/-- Appends digits to a significand as long as the result is at most `limit`. Gives the significand
and the number of digits that found no place. -/
def gather (limit significand : Nat) : List Nat → Nat × Nat
  | [] => (significand, 0)
  | d :: ds =>
    if significand * 10 + d ≤ limit then gather limit (significand * 10 + d) ds
    else (significand, ds.length + 1)

/-- The largest significand, `2 ^ 64 - 1`. -/
def significandLimit : Nat := 18446744073709551615

/-- The largest exponent that is read digit by digit, `2 ^ 31 - 1`. -/
def exponentLimit : Nat := 2147483647

namespace Number

/-- Ten to a power of at most 308, as the nearest double. -/
def powerOfTen (n : Nat) : Float := Float.ofScientific 1 false n

/-- Divides a double by ten to the power `n`, by at most `10 ^ 308` at a time. -/
def scaleDown (x : Float) (n : Nat) : Float :=
  if n ≤ 308 then x / powerOfTen n
  else if x == 0 then x
  else scaleDown (x / powerOfTen 308) (n - 308)
termination_by n

/-- Multiplies a double by ten to the power `n`, unless the product is out of range. -/
def scaleUp? (x : Float) (n : Nat) : Option Float :=
  if n ≤ 308 then
    let product := x * powerOfTen n
    if product.isInf then none else some product
  else if x == 0 then some x
  else none

/-- The number `significand * 10 ^ exponent` as a double, with the given sign. -/
def ofParts? (negative : Bool) (significand : Nat) (exponent : Int) : Option Number :=
  let x := significand.toUInt64.toFloat
  let scaled := if 0 ≤ exponent then scaleUp? x exponent.toNat
    else some (scaleDown x (-exponent).toNat)
  scaled.map fun y => .double (if negative then (-y).toBits else y.toBits)

/-- The number of a numeral that has neither fraction nor exponent and whose digits fit the
significand. A negative zero and what lies below `-2 ^ 63` become doubles. -/
def ofInteger (negative : Bool) (significand : Nat) : Number :=
  if !negative then .integer significand
  else if 0 < significand && significand ≤ 9223372036854775808 then .integer (-significand)
  else .double (-significand.toUInt64.toFloat).toBits

end Number

/-- The digits before the point. A numeral does not start with a zero that another digit follows. -/
def wholePart (cs : List Char) : Except Stop (Parsed (List Nat) cs.length) :=
  match cs with
  | [] => .error (.here .endInValue [])
  | c :: rest =>
    if !c.isDigit then .error (.next .badNumber (c :: rest))
    else if c = '0' then
      if (digits rest).isEmpty then .ok ⟨[0], rest, length_lt_length_cons c rest⟩
      else .error (.next .badNumber rest)
    else
      .ok ⟨digitValue c :: digits rest, rest.dropWhile Char.isDigit,
        Nat.lt_succ_of_le (List.dropWhile_sublist _).length_le⟩

/-- The digits behind the point, `none` if no point follows. A point is followed by a digit. -/
def fractionPart (cs : List Char) : Except Stop (Parsed (Option (List Nat)) (cs.length + 1)) :=
  match cs with
  | '.' :: rest =>
    if (digits rest).isEmpty then
      .error (.next (if rest.isEmpty then .endInValue else .badNumber) rest)
    else
      .ok ⟨some (digits rest), rest.dropWhile Char.isDigit, by
        have := (List.dropWhile_sublist (l := rest) Char.isDigit).length_le
        simp only [List.length_cons]
        omega⟩
  | cs => .ok ⟨none, cs, Nat.lt_succ_self _⟩

/-- An exponent: its sign, its digits, and the text from its first digit on. -/
structure Exponent where
  negative : Bool
  digits : List Nat
  text : List Char

/-- The sign in front of an exponent's digits, and the text behind it. -/
def exponentSign : List Char → Bool × List Char
  | '+' :: rest => (false, rest)
  | '-' :: rest => (true, rest)
  | cs => (false, cs)

theorem length_exponentSign_le (cs : List Char) : (exponentSign cs).2.length ≤ cs.length := by
  unfold exponentSign
  split <;> simp

/-- The exponent, `none` if no exponent letter follows. The letter and the sign are followed by a
digit. -/
def exponentPart (cs : List Char) : Except Stop (Parsed (Option Exponent) (cs.length + 1)) :=
  match cs with
  | [] => .ok ⟨none, [], Nat.lt_succ_self _⟩
  | c :: rest =>
    if c = 'e' || c = 'E' then
      let signed := exponentSign rest
      if signed.2.isEmpty then .error (.here .endInValue [])
      else if (digits signed.2).isEmpty then .error (.next .badNumber signed.2)
      else
        .ok ⟨some ⟨signed.1, digits signed.2, signed.2⟩, signed.2.dropWhile Char.isDigit, by
          have h₁ := (List.dropWhile_sublist (l := signed.2) Char.isDigit).length_le
          have h₂ : signed.2.length ≤ rest.length := length_exponentSign_le rest
          simp only [List.length_cons]
          omega⟩
    else .ok ⟨none, c :: rest, Nat.lt_succ_self _⟩

/-- The significand and the decimal exponent of the digits before and behind the point. -/
def significandOf (whole fraction : List Nat) : Nat × Int :=
  let (head, counted) := gather significandLimit 0 whole
  let (significand, dropped) := gather significandLimit head fraction
  (significand, (counted : Int) - (fraction.length - dropped : Nat))

/-- The double of a significand and a decimal exponent, or the fault that it is out of range, met
in front of `rest`. -/
def doubleOf (negative : Bool) (significand : Nat) (exponent : Int) (rest : List Char) :
    Except Stop Number :=
  match Number.ofParts? negative significand exponent with
  | some value => .ok value
  | none => .error (.here .outOfRange rest)

/-- The number of a numeral, from its sign, its digits before and behind the point, its exponent
and the text behind it. An exponent beyond its limit is out of range right behind the digit that
exceeds it, unless the number is zero. -/
def numberOf (negative : Bool) (whole : List Nat) (fraction : Option (List Nat))
    (exponent : Option Exponent) (rest : List Char) : Except Stop Number :=
  let (significand, shift) := significandOf whole (fraction.getD [])
  match exponent with
  | none =>
    if fraction.isNone && shift = 0 then .ok (.ofInteger negative significand)
    else doubleOf negative significand shift rest
  | some e =>
    let (power, excess) := gather exponentLimit 0 e.digits
    if excess = 0 then
      doubleOf negative significand (if e.negative then shift - power else shift + power) rest
    else if significand ≠ 0 && !e.negative then
      .error (.here .outOfRange (e.text.drop (e.digits.length - excess + 1)))
    else doubleOf negative 0 0 rest

/-- Reads a numeral, whose sign is already known. -/
def unsignedNumeral (negative : Bool) (cs : List Char) :
    Except Stop (Parsed Number cs.length) := do
  let whole ← wholePart cs
  let fraction ← fractionPart whole.rest
  let exponent ← exponentPart fraction.rest
  let number ← numberOf negative whole.value fraction.value exponent.value exponent.rest
  return ⟨number, exponent.rest, by
    have h₁ := whole.shorter
    have h₂ := fraction.shorter
    have h₃ := exponent.shorter
    omega⟩

/-- Reads a numeral. -/
def numeral (cs : List Char) : Except Stop (Parsed Number cs.length) :=
  match cs with
  | '-' :: rest =>
    (unsignedNumeral true rest).map fun p => p.weaken (length_le_length_cons '-' rest)
  | cs => unsignedNumeral false cs

end AvroTypings.Json
