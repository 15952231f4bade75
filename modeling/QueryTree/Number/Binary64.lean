/-!
# Floats as exact numbers

A `Binary64` is the 64-bit word of an IEEE 754 double, and everything said about it here is
said about the exact number that the word denotes. No machine arithmetic is involved: the whole
format is a table of magnitudes in ascending order, so a word is read through two numbers.

* `rank` is the place of the magnitude in that order. It is the word without its sign bit, which
  is why comparing magnitudes is comparing ranks, and why the neighbours of a float are the ranks
  one below and one above.
* `units r` is the magnitude at rank `r`, counted in units of the smallest positive float,
  `2 ^ -1074`. Every finite float is a whole number of these units.

Infinity is the rank after the last finite one, and every rank above it is a NaN. `units` goes on
through these ranks as if they were one more binade; that gives the last finite float an upper
neighbour like any other.
-/

set_option autoImplicit false

namespace QueryTree

/-- A double-precision float, held as its 64 bits: sign, 11 exponent bits, 52 fraction bits. -/
structure Binary64 where
  bits : UInt64
  deriving DecidableEq, Repr, Inhabited

namespace Binary64

/-! ## Reading a word -/

/-- The weight of the sign bit, `2 ^ 63`; below it lie all the ranks. -/
def signWeight : Nat := 0x8000000000000000

/-- The number of floats between one power of two and the next, `2 ^ 52`. -/
def binade : Nat := 0x10000000000000

/-- The rank of infinity: all exponent bits set, no fraction bit set. -/
def infiniteRank : Nat := 2047 * binade

/-- The number one in units, `2 ^ 1074`. -/
def unitsOfOne : Nat := Nat.pow 2 1074

/-- The place of the magnitude among all magnitudes, in ascending order. -/
def rank (x : Binary64) : Nat := x.bits.toNat % signWeight

/-- Whether the sign bit is set; it is for `-0.0`. -/
def isNegative (x : Binary64) : Bool := signWeight ≤ x.bits.toNat

/-- Neither an infinity nor a NaN. -/
def isFinite (x : Binary64) : Bool := x.rank < infiniteRank

def isNaN (x : Binary64) : Bool := infiniteRank < x.rank

/-- The magnitude at a rank, in units of `2 ^ -1074`.

    The ranks of the first binade are the subnormal floats, which are counted one by one; so are the
    floats of the second. After that, each binade doubles the step of the one before. -/
def units (rank : Nat) : Nat :=
  if rank < binade then rank
  else (binade + rank % binade) * Nat.pow 2 (rank / binade - 1)

/-! ## Values -/

/-- The exact value of a finite float, in units of `2 ^ -1074`. -/
def scaledValue (x : Binary64) : Int :=
  if x.isNegative then -(units x.rank : Int) else units x.rank

/-- The float's value when it is a whole number. Both zeros are the number 0. -/
def toInt? (x : Binary64) : Option Int :=
  if x.isFinite && x.scaledValue % unitsOfOne == 0 then some (x.scaledValue / unitsOfOne) else none

/-- Equality as numbers: both zeros are one number, and a NaN equals nothing, itself included.

    Away from zero and NaN, two words denote one number only if they are the same word. -/
def sameNumber (x y : Binary64) : Bool :=
  !x.isNaN && !y.isNaN && x.rank == y.rank && (x.isNegative == y.isNegative || x.rank == 0)

/-! ## Rounding -/

/-- `n` divided by `2 ^ k` and rounded to the nearest whole number, a half to the even one. -/
def roundShift (n k : Nat) : Nat :=
  let divisor := Nat.pow 2 k
  let quotient := n / divisor
  let twiceRest := 2 * (n % divisor)
  if twiceRest < divisor then quotient
  else if divisor < twiceRest then quotient + 1
  else if quotient % 2 = 0 then quotient
  else quotient + 1

/-- The rank of the float nearest to a natural number, a half going to the even float.

    A number with top bit `e` is cut to 53 bits. Its leading bit adds one to the exponent field, so
    that a significand which rounds up to the next power of two carries into the exponent by
    itself. -/
def nearestRank (n : Nat) : Nat :=
  if n = 0 then 0
  else
    let e := n.log2
    let significand := if e ≤ 52 then n * Nat.pow 2 (52 - e) else roundShift n (e - 52)
    let rank := (e + 1022) * binade + significand
    if rank < infiniteRank then rank else infiniteRank

/-- The float nearest to an integer, a half going to the even float. -/
def ofInt (n : Int) : Binary64 :=
  ⟨UInt64.ofNat ((if n < 0 then signWeight else 0) + nearestRank n.natAbs)⟩

end Binary64

end QueryTree
