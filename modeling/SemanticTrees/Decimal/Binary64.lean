/-!
Double-precision numbers, given by their sixty-four bits, with exact arithmetic. A finite number
is `significand · 2 ^ exponent` with a sign, so rounding, comparison and the reading and writing
of decimals are statements about natural numbers.
-/

namespace SemanticTrees.Decimal

/-- A double-precision number, by its bits: a sign, eleven bits of exponent and fifty-two bits of
fraction. -/
structure Binary64 where
  bits : UInt64
deriving DecidableEq, Repr, Inhabited

namespace Binary64

/-- The place of the sign bit, above sixty-three others. -/
def signPlace : Nat := 9223372036854775808

/-- The number of fractions that share an exponent: a fraction has fifty-two bits. -/
def fractions : Nat := 4503599627370496

/-- The magnitude of infinity; smaller magnitudes are finite numbers and larger ones are no
numbers at all. -/
def infiniteMagnitude : Nat := 2047 * fractions

/-- All bits but the sign. Magnitudes are in the order of the absolute values they stand for. -/
def magnitude (x : Binary64) : Nat := x.bits.toNat % signPlace

/-- Whether the sign bit is set. -/
def isNegative (x : Binary64) : Bool := signPlace ≤ x.bits.toNat

/-- Neither a number nor an infinity. -/
def isNaN (x : Binary64) : Bool := infiniteMagnitude < x.magnitude

/-- One of the two infinities. -/
def isInfinite (x : Binary64) : Bool := x.magnitude == infiniteMagnitude

/-- A number. -/
def isFinite (x : Binary64) : Bool := x.magnitude < infiniteMagnitude

/-- One of the two zeros. -/
def isZero (x : Binary64) : Bool := x.magnitude == 0

/-- The number with the given sign and magnitude. -/
def ofMagnitude (negative : Bool) (magnitude : Nat) : Binary64 :=
  ⟨UInt64.ofNat (if negative then signPlace + magnitude else magnitude)⟩

/-- The two infinities. -/
def infinity (negative : Bool) : Binary64 := ofMagnitude negative infiniteMagnitude

/-- A value that is not a number. -/
def nan : Binary64 := ofMagnitude false (infiniteMagnitude + fractions / 2)

/-- The integer factor of a finite magnitude; numbers below the least normal one have no leading
bit. -/
def significandOf (magnitude : Nat) : Nat :=
  if magnitude / fractions = 0 then magnitude % fractions
  else fractions + magnitude % fractions

/-- The power of two that scales the significand of a finite magnitude. -/
def exponentOf (magnitude : Nat) : Int :=
  (max (magnitude / fractions) 1 : Nat) - 1075

/-- Equality of numbers: the two zeros are equal, and what is not a number equals nothing. -/
def sameNumber (x y : Binary64) : Bool :=
  !x.isNaN && !y.isNaN && (x.bits == y.bits || (x.isZero && y.isZero))

/-- The quotient to the nearest natural number, a half going to the even one. -/
def roundHalfEven (numerator denominator : Nat) : Nat :=
  let quotient := numerator / denominator
  let twice := 2 * (numerator % denominator)
  if twice < denominator then quotient
  else if denominator < twice then quotient + 1
  else quotient + quotient % 2

/-- The power of two at or just below a quotient, for a positive numerator and denominator. -/
def leadingExponent (numerator denominator : Nat) : Int :=
  let estimate : Int := (numerator.log2 : Int) - denominator.log2
  if denominator * Nat.pow 2 estimate.toNat ≤ numerator * Nat.pow 2 (-estimate).toNat then
    estimate
  else estimate - 1

/-- The magnitude nearest to a quotient, ties going to the even significand; quotients beyond
the largest number give the infinite magnitude. -/
def nearestMagnitude (numerator denominator : Nat) : Nat :=
  if numerator = 0 then 0
  else
    let unit := max (leadingExponent numerator denominator - 52) (-1074)
    let steps :=
      roundHalfEven (numerator * Nat.pow 2 (-unit).toNat) (denominator * Nat.pow 2 unit.toNat)
    min ((unit + 1074).toNat * fractions + steps) infiniteMagnitude

/-- The magnitude nearest to a natural number. -/
def magnitudeOfNat (n : Nat) : Nat := nearestMagnitude n 1

/-- The magnitude of the rounded product of two finite magnitudes. -/
def mulMagnitude (x y : Nat) : Nat :=
  let exponent := exponentOf x + exponentOf y
  nearestMagnitude (significandOf x * significandOf y * Nat.pow 2 exponent.toNat)
    (Nat.pow 2 (-exponent).toNat)

/-- The magnitude of the rounded quotient of two finite magnitudes, the second not zero. -/
def divMagnitude (x y : Nat) : Nat :=
  let exponent := exponentOf x - exponentOf y
  nearestMagnitude (significandOf x * Nat.pow 2 exponent.toNat)
    (significandOf y * Nat.pow 2 (-exponent).toNat)

/-- The double nearest to an integer. -/
def ofInt (n : Int) : Binary64 := ofMagnitude (n < 0) (magnitudeOfNat n.natAbs)

end Binary64

end SemanticTrees.Decimal
