import SemanticTrees.Decimal.Shortest

/-!
The written form of doubles. The shortest digits stand around a point while the number is neither
very large nor very small, and before a power of ten otherwise.
-/

namespace SemanticTrees.Decimal

/-- The choices of a decimal notation. -/
structure Notation where
  /-- Numbers below this power of ten are written with an exponent. -/
  leastPower : Int
  /-- Numbers from this power of ten on are written with an exponent. -/
  mostPower : Int
  /-- The choice between two equally near shortest decimals. -/
  tie : Tie

namespace Notation

/-- The digits of a natural number. -/
def digitsOf (n : Nat) : List Char := Nat.toDigits 10 n

/-- A decimal with a point; a whole number has one zero after it. -/
def positional (d : Scaled) : List Char :=
  let digits := digitsOf d.digits
  if 0 ≤ d.exponent then
    digits ++ List.replicate d.exponent.toNat '0' ++ ['.', '0']
  else
    let places := (-d.exponent).toNat
    if places < digits.length then
      digits.take (digits.length - places) ++ '.' :: digits.drop (digits.length - places)
    else
      ['0', '.'] ++ List.replicate (places - digits.length) '0' ++ digits

/-- A decimal with one digit before the point and a power of ten; a single digit has no point. -/
def scientific (d : Scaled) : List Char :=
  let digits := digitsOf d.digits
  let power := d.exponent + (digits.length - 1 : Nat)
  let sign := if power < 0 then ['-'] else []
  let mantissa :=
    match digits with
    | [] => []
    | [digit] => [digit]
    | digit :: rest => digit :: '.' :: rest
  mantissa ++ 'e' :: sign ++ digitsOf power.natAbs

/-- The unsigned text of a finite magnitude. -/
def ofMagnitude (form : Notation) (magnitude : Nat) : List Char :=
  if magnitude = 0 then ['0', '.', '0']
  else
    let d := shortest form.tie magnitude
    let power := d.exponent + (digitsOf d.digits).length
    if form.leastPower < power ∧ power ≤ form.mostPower then positional d else scientific d

/-- The text of a double. -/
def text (form : Notation) (x : Binary64) : List Char :=
  if x.isNaN then "NaN".toList
  else
    let sign := if x.isNegative then ['-'] else []
    if x.isInfinite then sign ++ "inf".toList else sign ++ form.ofMagnitude x.magnitude

end Notation

end SemanticTrees.Decimal
