/-!
# The shortest decimal of a double

Among the decimals that round to a given double there are some with the fewest digits, and among
these one lies nearest to the double. This file finds it in exact arithmetic: for one digit, two
digits, and so on it tries the two neighbours of the double on the decimal grid with that many
digits, and stops at the first grid with a neighbour inside the rounding interval.

## Main definitions

* `Double`: the sign, mantissa and binary exponent of a double, `Double.ofBits` reads them off.
* `Decimal`: an integer times a power of ten.
* `Double.shortest`: the shortest decimal of a double's magnitude.
* `Decimal.scientific`: its text, positional from `10 ^ -5` up to `10 ^ 16`.
-/

namespace AvroTypings

/-- A finite double `± mantissa * 2 ^ exponent`. -/
structure Double where
  negative : Bool
  mantissa : Nat
  exponent : Int
  /-- The double below is only half as far away as the double above. -/
  narrowBelow : Bool

/-- A decimal `digits * 10 ^ exponent`. -/
structure Decimal where
  digits : Nat
  exponent : Int

namespace Double

/-- The fields of a double given by its 64 bits. -/
def ofBits (bits : UInt64) : Double :=
  let fraction : Nat := bits.toNat % Nat.pow 2 52
  let biased : Nat := bits.toNat / Nat.pow 2 52 % Nat.pow 2 11
  let negative : Bool := Nat.pow 2 63 ≤ bits.toNat
  if biased = 0 then ⟨negative, fraction, -1074, false⟩
  else ⟨negative, fraction + Nat.pow 2 52, (biased : Int) - 1075, fraction = 0 && 1 < biased⟩

/-- Four times the magnitude over a power of two, as a numerator and a denominator. The factor
makes both ends of the rounding interval integers over the same denominator. -/
def scale (x : Double) : Nat × Nat :=
  let shift := x.exponent - 2
  (Nat.pow 2 shift.toNat, Nat.pow 2 (-shift).toNat)

/-- Whether `candidate * 10 ^ power` rounds to the double. The ends of the rounding interval belong
to it when the mantissa is even. -/
def roundsFrom (x : Double) (candidate : Nat) (power : Int) : Bool :=
  let (up, down) := x.scale
  let lower := 4 * x.mantissa - (if x.narrowBelow then 1 else 2)
  let upper := 4 * x.mantissa + 2
  let point := candidate * Nat.pow 10 power.toNat * down
  let unit := up * Nat.pow 10 (-power).toNat
  if x.mantissa % 2 = 0 then lower * unit ≤ point && point ≤ upper * unit
  else lower * unit < point && point < upper * unit

/-- The number of digits before the decimal point of the magnitude; for a magnitude below one, the
negated number of zeros that follow the point. -/
def magnitude (x : Double) : Int :=
  let (up, down) := x.scale
  let numerator := 4 * x.mantissa * up
  if down ≤ numerator then ((Nat.toDigits 10 (numerator / down)).length : Int)
  else
    match (List.range 400).find? fun zeros => down ≤ numerator * Nat.pow 10 (zeros + 1) with
    | some zeros => -(zeros : Int)
    | none => 0

/-- The neighbour of the magnitude on the grid of multiples of `10 ^ power` that rounds to the
double. Of two such neighbours the nearer is taken, and the even one if they are equally near. -/
def onGrid? (x : Double) (power : Int) : Option Nat :=
  let (up, down) := x.scale
  let numerator := 4 * x.mantissa * up * Nat.pow 10 (-power).toNat
  let denominator := down * Nat.pow 10 power.toNat
  let below := numerator / denominator
  let distance := 2 * (numerator % denominator)
  match x.roundsFrom below power, x.roundsFrom (below + 1) power with
  | false, false => none
  | true, false => some below
  | false, true => some (below + 1)
  | true, true =>
    if distance < denominator then some below
    else if denominator < distance then some (below + 1)
    else if below % 2 = 0 then some below
    else some (below + 1)

/-- The shortest decimal that rounds to the magnitude of the double. -/
def shortest (x : Double) : Decimal :=
  if x.mantissa = 0 then ⟨0, 0⟩
  else
    let places := (List.range 17).map fun count : Nat => x.magnitude - (count + 1 : Nat)
    match places.findSome? fun power => (x.onGrid? power).map fun digits => (digits, power) with
    | some (digits, power) => ⟨digits, power⟩
    | none => ⟨0, 0⟩

end Double

namespace Decimal

/-- The zeros at the end of the digits move into the exponent. -/
def trim (d : Decimal) : Decimal :=
  let digits := Nat.toDigits 10 d.digits
  let zeros := (digits.reverse.takeWhile (· = '0')).length
  if d.digits = 0 then d else ⟨d.digits / Nat.pow 10 zeros, d.exponent + zeros⟩

/-- The text of a decimal. Values from `10 ^ -5` up to `10 ^ 16` are written positionally, with at
least one digit after the point; the others as a digit, further digits if any after a point, the
letter `e` and the exponent with its sign. -/
def scientific (d : Decimal) : String :=
  let digits := Nat.toDigits 10 d.trim.digits
  let shift := d.trim.exponent
  let point := (digits.length : Int) + shift
  if 0 ≤ shift && point ≤ 16 then
    String.ofList (digits ++ List.replicate shift.toNat '0' ++ ['.', '0'])
  else if 0 < point && point ≤ 16 then
    String.ofList (digits.take point.toNat ++ ['.'] ++ digits.drop point.toNat)
  else if -5 < point && point ≤ 0 then
    String.ofList (['0', '.'] ++ List.replicate (-point).toNat '0' ++ digits)
  else
    let fraction := if digits.length = 1 then [] else '.' :: digits.drop 1
    let sign := if 0 < point then '+' else '-'
    String.ofList
      (digits.take 1 ++ fraction ++ ['e', sign] ++ Nat.toDigits 10 (point - 1).natAbs)

end Decimal

/-- The text of a double: a minus sign if it is negative, zero included, and its shortest
decimal. -/
def Double.text (x : Double) : String :=
  (if x.negative then "-" else "") ++ x.shortest.scientific

end AvroTypings
