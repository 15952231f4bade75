import QueryTree.Number.Shortest

/-!
# How numbers are written

Digits are chosen by `Number/Shortest`; this module places them. A float has two written forms,
and each is one value of `FloatStyle`:

* `FloatStyle.query`, in query text and in messages about floats: never an exponent, no point
  after a whole number;
* `FloatStyle.data`, inside the text of plain data: a point in every number, and an exponent for
  very large and very small ones.

They also differ in which of two equally near shortest decimals they take.
-/

set_option autoImplicit false

namespace QueryTree

def natChars (n : Nat) : List Char := Nat.toDigits 10 n

/-- The decimal digits of an integer, after a minus sign when it is negative. -/
def intChars : Int → List Char
  | .ofNat n => natChars n
  | .negSucc n => '-' :: natChars (n + 1)

namespace Decimal

def digits (d : Decimal) : List Char := natChars d.significand

/-- How many of the digits stand before the point; zeros are missing where this is not positive. -/
def pointPlace (d : Decimal) : Int := d.digits.length + d.exponent

def isWhole (d : Decimal) : Bool := 0 ≤ d.exponent

/-- Written out in full, padded with zeros on the side where digits are missing. -/
def plainChars (d : Decimal) : List Char :=
  if d.isWhole then d.digits ++ List.replicate d.exponent.toNat '0'
  else if 0 < d.pointPlace then
    d.digits.take d.pointPlace.toNat ++ '.' :: d.digits.drop d.pointPlace.toNat
  else '0' :: '.' :: List.replicate (-d.pointPlace).toNat '0' ++ d.digits

/-- Written with one digit before the point and a signed exponent, as in `1.5e+16` and `1e-7`. -/
def exponentChars (d : Decimal) : List Char :=
  let power := d.pointPlace - 1
  let mantissa :=
    match d.digits with
    | first :: second :: rest => first :: '.' :: second :: rest
    | single => single
  mantissa ++ 'e' :: (if 0 ≤ power then '+' :: intChars power else intChars power)

end Decimal

/-- The choices that one written form of a float makes. -/
structure FloatStyle where
  /-- which of two equally near shortest decimals is taken -/
  tie : Tie
  /-- what follows the digits of a whole number -/
  wholeMark : List Char
  /-- the places of the point for which the number is written out in full -/
  isPlain : Int → Bool

/-- Floats in query text are always written out in full, and a tie goes away from zero. -/
def FloatStyle.query : FloatStyle where
  tie := .awayFromZero
  wholeMark := []
  isPlain _ := true

/-- Floats in plain data keep a point, so that they differ from integers. They are written out from
    `0.00001` up to below `10 ^ 16`, and a tie goes to the even digit. -/
def FloatStyle.data : FloatStyle where
  tie := .toEven
  wholeMark := ['.', '0']
  isPlain place := -5 < place && place ≤ 16

/-- A decimal in a style, without sign. -/
def Decimal.chars (style : FloatStyle) (d : Decimal) : List Char :=
  if style.isPlain d.pointPlace then
    d.plainChars ++ (if d.isWhole then style.wholeMark else [])
  else d.exponentChars

/-- A float in a style. The sign of zero is kept, that of a NaN is not. -/
def Binary64.chars (style : FloatStyle) (x : Binary64) : List Char :=
  if x.isNaN then "NaN".toList
  else
    (if x.isNegative then ['-'] else []) ++
      (if x.isFinite then (x.shortest style.tie).chars style else "inf".toList)

end QueryTree
