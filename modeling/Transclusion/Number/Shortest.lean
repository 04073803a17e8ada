import Transclusion.Number.Double

/-
  Decimal text of binary64 numbers.

  Key definitions include:
    * `Transclusion.Decimal`
    * `Transclusion.Double.shortest`
    * `Transclusion.Layout`
    * `Transclusion.Double.text`
    * `Transclusion.Double.positionalText`

  A number is written with the fewest digits that read back
  as the number itself, and among those with the digits
  nearest to it.  The search goes through ever finer decimal
  grids and tests the two neighbours of the number on each.
-/

------------------------------------------------------------
-- Shortest Digits
------------------------------------------------------------

namespace Transclusion

/- The decimal number `digits * 10 ^ exponent`. -/
structure Decimal where
  digits : Nat
  exponent : Int
  deriving DecidableEq

namespace Decimal

/- Move trailing zeros into the exponent. -/
def trimZeros : Nat → Decimal → Decimal
  | 0, d => d
  | fuel + 1, d =>
      if d.digits ≠ 0 ∧ d.digits % 10 = 0 then
        trimZeros fuel ⟨d.digits / 10, d.exponent + 1⟩
      else
        d

/-
  The point of the first of so many grids that has one, from
  `10 ^ exponent` on to finer ones.
-/
def search
    (onGrid? : Int → Option Nat) :
    Nat → Int → Decimal
  | 0, exponent => ⟨0, exponent⟩
  | fuel + 1, exponent =>
      match onGrid? exponent with
      | some digits => trimZeros 18 ⟨digits, exponent⟩
      | none => search onGrid? fuel (exponent - 1)

end Decimal

/-
  The magnitudes that round to one number, in units of
  `2 ^ -1076`, with the magnitude itself.
-/
structure RoundingInterval where
  low : Nat
  value : Nat
  high : Nat
  closed : Bool

namespace RoundingInterval

/-
  The interval of a number.  Its ends belong to it if the
  significand is even; below a power of two the neighbours
  are half as far apart.
-/
def ofDouble
    (d : Double) : RoundingInterval :=
  let unit := Nat.pow 2 d.power
  let below :=
    if d.significand = 4503599627370496 ∧
        0 < d.power then unit
    else 2 * unit
  let value := 4 * d.significand * unit
  { low := value - below
    value := value
    high := value + 2 * unit
    closed := d.significand % 2 == 0 }

/-
  Whether a grid point lies inside, the interval's ends
  being stretched by the same factor as the point.
-/
def contains
    (interval : RoundingInterval)
    (stretch point : Nat) : Bool :=
  let low := interval.low * stretch
  let high := interval.high * stretch
  (low < point && point < high) ||
    (interval.closed && (point == low || point == high))

/-
  The point of the grid of `10 ^ exponent` that lies in the
  interval and is nearest to its number, if one does.
-/
def nearestOnGrid?
    (interval : RoundingInterval)
    (exponent : Int) : Option Nat :=
  let stretch := Nat.pow 10 (-exponent).toNat
  let step :=
    Nat.pow 10 exponent.toNat * Nat.pow 2 1076
  let value := interval.value * stretch
  let lower := value / step
  let upper := lower + 1
  let hasLower := interval.contains stretch (lower * step)
  let hasUpper := interval.contains stretch (upper * step)
  let toLower := value - lower * step
  let toUpper := upper * step - value
  if hasLower && hasUpper then
    if toLower < toUpper ||
        (toLower == toUpper && lower % 2 == 0) then
      some lower
    else
      some upper
  else if hasLower then some lower
  else if hasUpper then some upper
  else none

/-
  The exponent of the leading decimal digit.  Every positive
  number is at least `2 ^ -1074`, so the scaled number below
  has at least one digit.
-/
def leadingExponent
    (interval : RoundingInterval) : Int :=
  let scaled :=
    interval.value * Nat.pow 10 400 / Nat.pow 2 1076
  (Nat.toDigits 10 scaled).length - 401

end RoundingInterval

namespace Double

/-
  The shortest decimal that reads back as the number.
  Seventeen digits always do.
-/
def shortest
    (d : Double) : Decimal :=
  if d.significand = 0 then ⟨0, 0⟩
  else
    let interval := RoundingInterval.ofDouble d
    Decimal.search interval.nearestOnGrid? 18
      interval.leadingExponent

end Double

end Transclusion

------------------------------------------------------------
-- Written Numbers
------------------------------------------------------------

namespace Transclusion

/-
  Which numbers are written without an exponent: those whose
  point stands at most `right` digits behind the first digit
  and fewer than `left` zeros in front of it.  `plus` is
  what stands before an exponent that is not negative.
-/
structure Layout where
  right : Nat
  left : Nat
  plus : List Char

namespace Layout

/- The layout of numbers in JSON texts. -/
def json : Layout :=
  ⟨16, 5, ['+']⟩

/- The layout of numbers in YAML texts. -/
def yaml : Layout :=
  ⟨16, 5, []⟩

end Layout

namespace Decimal

/- The decimal digits, without a sign or a point. -/
def digitText
    (d : Decimal) : List Char :=
  Nat.toDigits 10 d.digits

/- Where the point stands, counted from the first digit. -/
def point
    (d : Decimal) : Int :=
  d.digitText.length + d.exponent

/- The number without an exponent, always with a point. -/
def positional
    (d : Decimal) : List Char :=
  let digits := d.digitText
  if 0 ≤ d.exponent then
    digits ++ List.replicate d.exponent.toNat '0' ++
      ['.', '0']
  else if 0 < d.point then
    digits.take d.point.toNat ++
      '.' :: digits.drop d.point.toNat
  else
    ['0', '.'] ++
      List.replicate (-d.point).toNat '0' ++ digits

/- The number with one digit before the point. -/
def scientific
    (layout : Layout)
    (d : Decimal) : List Char :=
  let exponent := d.point - 1
  let sign := if exponent < 0 then ['-'] else layout.plus
  let mantissa :=
    match d.digitText with
    | [] => []
    | [digit] => [digit]
    | digit :: rest => digit :: '.' :: rest
  mantissa ++ 'e' :: sign ++
    Nat.toDigits 10 exponent.natAbs

/- The number in a layout. -/
def text
    (layout : Layout)
    (d : Decimal) : List Char :=
  if -(layout.left : Int) < d.point ∧
      d.point ≤ layout.right then
    d.positional
  else
    d.scientific layout

end Decimal

namespace Double

/- The sign of a negative number. -/
def signText
    (d : Double) : List Char :=
  if d.negative then ['-'] else []

/- A number in a layout. -/
def text
    (layout : Layout)
    (d : Double) : String :=
  String.ofList (d.signText ++ d.shortest.text layout)

/- A number without an exponent. -/
def positionalText
    (d : Double) : String :=
  String.ofList (d.signText ++ d.shortest.positional)

end Double

end Transclusion
