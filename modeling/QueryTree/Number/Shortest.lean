import QueryTree.Number.Binary64

/-!
# The shortest decimal that reads back

Between two neighbouring floats lies a midpoint, and a decimal reads back as a given float when
it lies between the midpoints on either side of it. This module finds, among all those decimals,
one with the fewest digits.

The search walks the grids of multiples of `10 ^ e` from coarse to fine. If any point of a grid
reads back, so does one of the two points next to the float's own value, so only those two are
tried. The first grid with a hit decides the number of digits; of two hits the nearer is taken,
and `Tie` says which one when they are equally near.

Everything is exact arithmetic on natural numbers. Magnitudes are counted in half units, that is
in multiples of `2 ^ -1075`, because that is where the midpoints are.
-/

set_option autoImplicit false

namespace QueryTree

structure Decimal where
  significand : Nat
  exponent : Int
  deriving DecidableEq, Repr

/-- Which of two equally near decimals is written. -/
inductive Tie
  /-- the one of larger magnitude -/
  | awayFromZero
  /-- the one whose last digit is even -/
  | toEven
  deriving DecidableEq, Repr

/-- The magnitudes that read back as one float, in half units: everything between `low` and `high`,
    the ends included when `closed`. The float itself is `value`. -/
structure Basin where
  low : Nat
  value : Nat
  high : Nat
  closed : Bool
  deriving Repr

namespace Basin

/-- The basin of the float at a rank. A midpoint is half the sum of two neighbours, so in half units
    it is their sum; it reads back as the neighbour whose rank is even. -/
def ofRank (rank : Nat) : Basin where
  low := Binary64.units (rank - 1) + Binary64.units rank
  value := 2 * Binary64.units rank
  high := Binary64.units rank + Binary64.units (rank + 1)
  closed := rank % 2 == 0

/-- The number one in half units, `2 ^ 1075`. -/
def halfUnitsOfOne : Nat := 2 * Binary64.unitsOfOne

/-- The step of the grid of multiples of `10 ^ e` in half units, as numerator over denominator. -/
def gridNum (e : Int) : Nat := Nat.pow 10 e.toNat * halfUnitsOfOne

@[inherit_doc gridNum]
def gridDen (e : Int) : Nat := Nat.pow 10 (-e).toNat

/-- Whether the decimal `c * 10 ^ e` reads back. -/
def contains (b : Basin) (e : Int) (c : Nat) : Bool :=
  if b.closed then
    b.low * gridDen e ≤ c * gridNum e && c * gridNum e ≤ b.high * gridDen e
  else
    b.low * gridDen e < c * gridNum e && c * gridNum e < b.high * gridDen e

/-- Of the grid points `c` and `c + 1` around the value, the one nearer to it. -/
def nearer (b : Basin) (tie : Tie) (e : Int) (c : Nat) : Nat :=
  let rest := 2 * (b.value * gridDen e % gridNum e)
  if rest < gridNum e then c
  else if gridNum e < rest then c + 1
  else match tie with
    | .awayFromZero => c + 1
    | .toEven => if c % 2 = 0 then c else c + 1

/-- The best multiple of `10 ^ e` that reads back, if one does. -/
def hit? (b : Basin) (tie : Tie) (e : Int) : Option Nat :=
  let c := b.value * gridDen e / gridNum e
  if b.contains e c then
    if b.contains e (c + 1) then some (b.nearer tie e c) else some c
  else if b.contains e (c + 1) then some (c + 1)
  else none

/-- The value with all its digits: half a unit is `5 ^ 1075 * 10 ^ -1075`. -/
def exact (b : Basin) : Decimal := ⟨b.value * Nat.pow 5 1075, -1075⟩

/-- The hit on the coarsest of the grids `e`, `e - 1`, … , of which `steps` are tried. -/
def firstHit (b : Basin) (tie : Tie) : (steps : Nat) → (e : Int) → Decimal
  | 0, _ => b.exact
  | steps + 1, e =>
    match b.hit? tie e with
    | some c => ⟨c, e⟩
    | none => firstHit b tie steps (e - 1)

/-- An exponent whose power of ten lies above the basin, so that no coarser grid has a hit. -/
def topExponent (b : Basin) : Nat := (Nat.toDigits 10 (b.high / halfUnitsOfOne)).length

/-- The shortest decimal that reads back. The finest grid that is ever needed is that of
    `10 ^ -324`, as its step is less than half the distance between any two floats. -/
def shortest (b : Basin) (tie : Tie) : Decimal :=
  b.firstHit tie (b.topExponent + 325) b.topExponent

end Basin

/-- The shortest decimal that reads back as the magnitude of a finite float. -/
def Binary64.shortest (x : Binary64) (tie : Tie) : Decimal :=
  if x.rank = 0 then ⟨0, 0⟩ else (Basin.ofRank x.rank).shortest tie

end QueryTree
