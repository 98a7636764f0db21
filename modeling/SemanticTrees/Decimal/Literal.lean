import SemanticTrees.Decimal.Binary64

/-!
Number literals. A literal is read as an integer when it is written as one and fits sixty-four
bits; otherwise its leading digits are collected into a sixty-four-bit significand, which is
rounded to a double and then scaled by powers of ten, each step rounding once more. The result is
not always the double nearest to the literal, and readers that must agree on it follow the same
steps.
-/

namespace SemanticTrees.Decimal

/-- A number literal by its parts, the digits as numbers below ten. -/
structure Literal where
  negative : Bool
  /-- The digits in front of the point. -/
  whole : List Nat
  /-- The digits after the point, if there is one. -/
  fraction : Option (List Nat)
  /-- The sign and digits of the power of ten, if there is one. -/
  power : Option (Bool × List Nat)
deriving Repr

/-- What a literal stands for. -/
inductive Number
  | integer (value : Int)
  | double (value : Binary64)
deriving DecidableEq, Repr

namespace Literal

/-- The largest significand, all of sixty-four bits set. -/
def mostSignificand : Nat := 18446744073709551615

/-- The largest power of ten that is read digit by digit. -/
def mostPower : Nat := 2147483647

/-- The digits in front of the point as a significand and a count: once a digit does not fit,
it and all later ones only count. -/
def gatherWhole : List Nat → Nat → Nat × Nat
  | [], significand => (significand, 0)
  | digit :: rest, significand =>
    if 10 * significand + digit ≤ mostSignificand then
      gatherWhole rest (10 * significand + digit)
    else (significand, rest.length + 1)

/-- The digits after the point appended to a significand, with their count; the first digit that
does not fit and all later ones are ignored. -/
def gatherFraction : List Nat → Nat → Nat × Nat
  | [], significand => (significand, 0)
  | digit :: rest, significand =>
    if 10 * significand + digit ≤ mostSignificand then
      let (final, count) := gatherFraction rest (10 * significand + digit)
      (final, count + 1)
    else (significand, 0)

/-- The value of a list of digits, or nothing when it exceeds `mostPower`. -/
def powerOf (digits : List Nat) : Option Nat :=
  let value := digits.foldl (fun value digit => 10 * value + digit) 0
  if value ≤ mostPower then some value else none

/-- The largest power of ten that is a finite double. -/
def mostTen : Nat := 308

/-- The magnitude of the double nearest to a power of ten. -/
def tenMagnitude (power : Nat) : Nat := Binary64.magnitudeOfNat (Nat.pow 10 power)

/-- A magnitude divided by a power of ten, by `mostTen` powers at a time. Three steps of that
size make every significand zero. -/
def shrink : Nat → Nat → Nat → Nat
  | 0, _, _ => 0
  | fuel + 1, magnitude, power =>
    if power ≤ mostTen then Binary64.divMagnitude magnitude (tenMagnitude power)
    else if magnitude = 0 then 0
    else shrink fuel (Binary64.divMagnitude magnitude (tenMagnitude mostTen)) (power - mostTen)

/-- The magnitude of a significand scaled by a power of ten, or nothing beyond the largest
double. -/
def scaled? (significand : Nat) (power : Int) : Option Nat :=
  let magnitude := Binary64.magnitudeOfNat significand
  if 0 ≤ power then
    if magnitude = 0 then some 0
    else if power ≤ mostTen then
      let product := Binary64.mulMagnitude magnitude (tenMagnitude power.toNat)
      if product < Binary64.infiniteMagnitude then some product else none
    else none
  else some (shrink 4 magnitude (-power).toNat)

/-- The double that a literal stands for, or nothing beyond the largest double. -/
def double? (l : Literal) : Option Binary64 :=
  let (whole, extra) := gatherWhole l.whole 0
  let (significand, places) := gatherFraction (l.fraction.getD []) whole
  let start : Int := (extra : Int) - places
  let magnitude? : Option Nat :=
    match l.power with
    | none => scaled? significand start
    | some (negativePower, digits) =>
      match powerOf digits with
      | some power => scaled? significand (if negativePower then start - power else start + power)
      | none => if significand = 0 ∨ negativePower then some 0 else none
  magnitude?.map (Binary64.ofMagnitude l.negative)

/-- The integer that a literal stands for, if it is written as one and fits sixty-four bits. A
zero with a minus sign is none. -/
def integer? (l : Literal) : Option Int :=
  match l.fraction, l.power, gatherWhole l.whole 0 with
  | none, none, (significand, 0) =>
    if !l.negative then some significand
    else if significand ≠ 0 ∧ significand ≤ 9223372036854775808 then
      some (-(significand : Int))
    else none
  | _, _, _ => none

/-- The number that a literal stands for, or nothing beyond the largest double. -/
def number? (l : Literal) : Option Number :=
  match l.integer? with
  | some n => some (.integer n)
  | none => l.double?.map .double

end Literal

end SemanticTrees.Decimal
