import SemanticTrees.Decimal.Binary64

/-!
The fewest decimal digits that read back. A finite double stands for every real number that
rounds to it; of the decimals in that interval the ones with the fewest digits are sought on
coarser and finer decimal grids, and of two on one grid the nearer is taken.
-/

namespace SemanticTrees.Decimal

/-- Which of two equally near decimals is taken. -/
inductive Tie
  | up
  | toEven
deriving DecidableEq, Repr

/-- A decimal number `digits · 10 ^ exponent`. -/
structure Scaled where
  digits : Nat
  exponent : Int
deriving DecidableEq, Repr

namespace Scaled

/-- The same number without zeros at the end of its digits. -/
def trimZeros : Nat → Scaled → Scaled
  | 0, d => d
  | fuel + 1, d =>
    if d.digits ≠ 0 ∧ d.digits % 10 = 0 then
      trimZeros fuel { digits := d.digits / 10, exponent := d.exponent + 1 }
    else d

end Scaled

/-- The reals that round to a positive double, as multiples of a common unit: twice the double
lies between `low` and `high`, which count as inside when `closed`. -/
structure Interval where
  low : Nat
  value : Nat
  high : Nat
  /-- The unit is `2 ^ exponent`. -/
  exponent : Int
  closed : Bool

namespace Interval

/-- The interval of a positive finite magnitude. Below a power of two the neighbours are half as
far apart as above it, except at the least exponent. -/
def ofMagnitude (magnitude : Nat) : Interval :=
  let m := Binary64.significandOf magnitude
  let belowPower := m = Binary64.fractions ∧ Binary64.fractions < magnitude
  { low := if belowPower then 4 * m - 1 else 4 * m - 2
    value := 4 * m
    high := 4 * m + 2
    exponent := Binary64.exponentOf magnitude - 2
    closed := m % 2 == 0 }

/-- A multiple of a power of ten as a multiple of the unit of the interval, both sides multiplied
by a common positive factor so that they are natural numbers. -/
def scale (i : Interval) (ten : Int) : Nat × Nat :=
  (Nat.pow 10 ten.toNat * Nat.pow 2 (-i.exponent).toNat,
    Nat.pow 10 (-ten).toNat * Nat.pow 2 i.exponent.toNat)

/-- Whether `digits · 10 ^ ten` lies in the interval. -/
def holds (i : Interval) (digits : Nat) (ten : Int) : Bool :=
  let (decimal, binary) := i.scale ten
  if i.closed then i.low * binary ≤ digits * decimal && digits * decimal ≤ i.high * binary
  else i.low * binary < digits * decimal && digits * decimal < i.high * binary

/-- The number of decimal digits in front of the point: the value lies below this power of ten
and not below the one before it. -/
def magnitude10 (i : Interval) : Int :=
  let leading := (i.value.log2 : Int) + i.exponent
  let estimate := leading * 30103 / 100000 + 1
  let reaches (power : Int) : Bool :=
    let (decimal, binary) := i.scale power
    decimal ≤ i.value * binary
  if reaches estimate then estimate + 1
  else if reaches (estimate - 1) then estimate
  else estimate - 1

/-- The decimal of the interval on the grid of one power of ten that is nearest to its value, if
there is one. -/
def onGrid (tie : Tie) (i : Interval) (ten : Int) : Option Scaled :=
  let (decimal, binary) := i.scale ten
  let below := i.value * binary / decimal
  let twice := 2 * (i.value * binary % decimal)
  let preferAbove : Bool :=
    if twice = decimal then
      match tie with
      | .up => true
      | .toEven => below % 2 = 1
    else decimal < twice
  match i.holds below ten, i.holds (below + 1) ten with
  | true, true => some ⟨if preferAbove then below + 1 else below, ten⟩
  | true, false => some ⟨below, ten⟩
  | false, true => some ⟨below + 1, ten⟩
  | false, false => none

/-- The decimal of the interval with the fewest digits, the search going on with grids of
`count`, `count + 1`, … digits for `fuel` more steps. -/
def search (tie : Tie) (i : Interval) : Nat → Nat → Scaled
  | 0, count => ⟨i.value, i.magnitude10 - count⟩
  | fuel + 1, count =>
    match i.onGrid tie (i.magnitude10 - count) with
    | some d => d
    | none => search tie i fuel (count + 1)

end Interval

/-- The fewest digits that read back as a positive finite magnitude; seventeen always suffice. -/
def shortest (tie : Tie) (magnitude : Nat) : Scaled :=
  Scaled.trimZeros 20 ((Interval.ofMagnitude magnitude).search tie 17 1)

end SemanticTrees.Decimal
