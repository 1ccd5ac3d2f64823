import RuleDiagram.Number.Binary64

/-!
# Decimal text of binary numbers

A finite number is written with the fewest digits that read back to it, and among those with the
digits nearest to its value. Which digits these are is settled by exact integer arithmetic on the
interval of reals that round to the number; how they are laid out is one record, `layout`.

## Main definitions

* `numeral`, `integerText`: decimal text of naturals and integers
* `Decimal`: a natural times a power of ten
* `Binary64.shortest`: the fewest digits that read back
* `Binary64.text`: the written form
* `Binary64.fixedText`: a written form with a set number of places
* `Binary64.ofDecimal`: the number nearest to a decimal
-/

namespace RuleDiagram

/-- The decimal digits of a natural. -/
def numeral (n : Nat) : String := String.ofList (Nat.toDigits 10 n)

/-- The decimal digits of an integer, after a minus sign if it is negative. -/
def integerText (n : Int) : String :=
  if n < 0 then "-" ++ numeral n.natAbs else numeral n.natAbs

/-- The number of decimal digits of a natural. -/
def digitCount (n : Nat) : Nat := (Nat.toDigits 10 n).length

/-- The decimal `digits * 10 ^ exponent`. -/
structure Decimal where
  digits : Nat
  exponent : Int
deriving DecidableEq

namespace Decimal

/-- Moves at most the given number of trailing zeros of the digits into the exponent. -/
def stripZeros : Nat → Decimal → Decimal
  | 0, d => d
  | n + 1, d => if d.digits % 10 = 0 then stripZeros n ⟨d.digits / 10, d.exponent + 1⟩ else d

end Decimal

/-- How a decimal is laid out: the exponents of the leading digit that are written positionally, and
the least number of digits of a written exponent. -/
structure DecimalLayout where
  plainFrom : Int
  plainBelow : Int
  exponentWidth : Nat

/-- Numbers are written positionally from `0.0001` up to below `10 ^ 16`, otherwise with a signed
exponent of at least two digits. -/
def layout : DecimalLayout := ⟨-4, 16, 2⟩

/-- The characters, after as many zeros as fill them up to the width. -/
def padZeros (width : Nat) (digits : List Char) : List Char :=
  List.replicate (width - digits.length) '0' ++ digits

namespace DecimalLayout

/-- The written form of a positive decimal: always with a fractional digit where it
is positional. -/
def write (l : DecimalLayout) (d : Decimal) : String :=
  let ds := Nat.toDigits 10 d.digits
  let lead : Int := d.exponent + ds.length - 1
  if l.plainFrom ≤ lead ∧ lead < l.plainBelow then
    if 0 ≤ d.exponent then String.ofList (ds ++ List.replicate d.exponent.toNat '0' ++ ['.', '0'])
    else if 0 ≤ lead then
      let whole := lead.toNat + 1
      String.ofList (ds.take whole ++ '.' :: ds.drop whole)
    else String.ofList ('0' :: '.' :: List.replicate (-lead - 1).toNat '0' ++ ds)
  else
    let fraction := if ds.length ≤ 1 then [] else '.' :: ds.drop 1
    let sign := if lead < 0 then '-' else '+'
    String.ofList (ds.take 1 ++ fraction ++
      'e' :: sign :: padZeros l.exponentWidth (Nat.toDigits 10 lead.natAbs))

end DecimalLayout

namespace Binary64

/-- Half units per one: the midpoint of two neighbouring numbers is a whole number of half units. -/
def halfUnitsPerOne : Nat := Nat.pow 2 1075

/-- A magnitude in half units is between the two midpoints around the number with the given code,
ends included exactly when the code is even: such reals round to that number. The magnitude is given
as a quotient. -/
def readsBack (code num den : Nat) : Bool :=
  let low := (magnitudeOfCode (code - 1) + magnitudeOfCode code) * den
  let high := (magnitudeOfCode code + magnitudeOfCode (code + 1)) * den
  if code % 2 = 0 then decide (low ≤ num ∧ num ≤ high) else decide (low < num ∧ num < high)

/-- The decimal place of the leading digit, counted from the units place as one. -/
def leadingPlace (code : Nat) : Int :=
  (digitCount (2 * magnitudeOfCode code * Nat.pow 10 400 / halfUnitsPerOne) : Int) - 400

/-- The neighbour of the number on the grid of multiples of `10 ^ place` that reads back to it, if
one does; of two the nearer, and the even one if both are equally near. -/
def onGrid (code : Nat) (place : Int) : Option Decimal :=
  let value := 2 * magnitudeOfCode code
  let grid := halfUnitsPerOne * Nat.pow 10 place.toNat
  let den := Nat.pow 10 (-place).toNat
  let below := value * den / grid
  let hits (d : Nat) : Bool := readsBack code (d * grid) den
  let twice := 2 * (value * den)
  let middle := (2 * below + 1) * grid
  if hits below && (!hits (below + 1) || decide (twice < middle) ||
      (decide (twice = middle) && decide (below % 2 = 0))) then some ⟨below, place⟩
  else if hits (below + 1) then some ⟨below + 1, place⟩
  else none

/-- The decimal with the fewest digits that reads back to the finite number with the given non-zero
code. -/
def shortest (code : Nat) : Decimal :=
  let lead := leadingPlace code
  match (List.range 17).findSome? fun (n : Nat) => onGrid code (lead - n - 1) with
  | some d => d.stripZeros 17
  | none => Decimal.stripZeros 1100 ⟨magnitudeOfCode code * Nat.pow 5 1074, -1074⟩

/-- The written form of a number: its sign, then the fewest digits that read back to it. -/
def text (x : Binary64) : String :=
  let magnitude :=
    if x.code = 0 then "0.0"
    else if x.isFinite then layout.write (shortest x.code)
    else "inf"
  if x.isUndefined then "nan" else if x.negative then "-" ++ magnitude else magnitude

/-- The written form with a set number of places, the exact value rounded half to even. -/
def fixedText (places : Nat) (x : Binary64) : String :=
  let magnitude :=
    if x.isFinite then
      let ds := padZeros (places + 1)
        (Nat.toDigits 10 (roundHalfEven (x.magnitude * Nat.pow 10 places) unitsPerOne))
      let whole := ds.length - places
      String.ofList (ds.take whole ++ (if places = 0 then [] else '.' :: ds.drop whole))
    else "inf"
  if x.isUndefined then "nan" else if x.negative then "-" ++ magnitude else magnitude

/-- The number of the given sign nearest to a decimal. -/
def ofDecimal (negative : Bool) (d : Decimal) : Binary64 :=
  let lead := d.exponent + digitCount d.digits
  if d.digits = 0 ∨ lead < -400 then ofCode negative 0
  else if 400 < lead then infinity negative
  else ofUnits negative (d.digits * Nat.pow 10 d.exponent.toNat * unitsPerOne)
    (Nat.pow 10 (-d.exponent).toNat)

end Binary64

end RuleDiagram
