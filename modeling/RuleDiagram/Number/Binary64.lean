/-!
# Binary floating-point numbers of 64 bits

A number is a sign and a *code*: the codes count the non-negative numbers upwards, from zero
through the largest finite one to infinity, and one more code stands for the undefined number.
Every finite number is a whole multiple of the least positive one, its *unit* `2 ^ -1074`, so all
arithmetic here is exact integer arithmetic followed by one rounding. An operation without a value,
or on the undefined number, gives the undefined number, which is in order with none.

## Main definitions

* `Binary64`: sign and code
* `Binary64.undefined`: the result of operations that have none
* `magnitude`, `units`: the exact value, in units
* `ofUnits`: the number nearest to a quotient of naturals, ties to the even code
* `whole?`: the integer a number stands for, if it is one
* `add`, `mul`, `div`, `less`: arithmetic and order
-/

namespace RuleDiagram

/-- Codes per binade: the numbers between two powers of two. -/
def binadeSize : Nat := Nat.pow 2 52

/-- The code after the largest finite number. -/
def infinityCode : Nat := 2047 * Nat.pow 2 52

/-- Units per one. -/
def unitsPerOne : Nat := Nat.pow 2 1074

/-- The code of the undefined number. -/
def undefinedCode : Nat := infinityCode + 1

/-- A binary floating-point number of 64 bits: its sign, and the place of its magnitude among the
non-negative numbers in increasing order. -/
structure Binary64 where
  negative : Bool
  code : Nat
  code_le : code ≤ undefinedCode
deriving DecidableEq

/-- The quotient rounded to the nearest natural, a half going to the even neighbour. -/
def roundHalfEven (num den : Nat) : Nat :=
  let q := num / den
  let r := num % den
  if 2 * r < den then q
  else if den < 2 * r then q + 1
  else if q % 2 = 0 then q else q + 1

namespace Binary64

instance : Inhabited Binary64 := ⟨⟨false, 0, Nat.zero_le _⟩⟩

def zero : Binary64 := ⟨false, 0, Nat.zero_le _⟩

def infinity (negative : Bool) : Binary64 := ⟨negative, infinityCode, Nat.le_succ _⟩

/-- The number that stands for no value. -/
def undefined : Binary64 := ⟨false, undefinedCode, Nat.le_refl _⟩

/-- The number with the given code, or infinity if no finite number has it. -/
def ofCode (negative : Bool) (code : Nat) : Binary64 :=
  ⟨negative, min code infinityCode, Nat.le_succ_of_le (Nat.min_le_right _ _)⟩

def isFinite (x : Binary64) : Bool := decide (x.code < infinityCode)

def isUndefined (x : Binary64) : Bool := decide (infinityCode < x.code)

/-- The magnitude with a given code, in units: the code itself up to the second binade, and from
there on twice the spacing in every further one. -/
def magnitudeOfCode (code : Nat) : Nat :=
  if code < binadeSize then code
  else (binadeSize + code % binadeSize) * Nat.pow 2 (code / binadeSize - 1)

/-- The magnitude of a finite number, in units. -/
def magnitude (x : Binary64) : Nat := magnitudeOfCode x.code

/-- The exact value of a finite number, in units. -/
def units (x : Binary64) : Int := if x.negative then -(x.magnitude : Int) else x.magnitude

/-- The code of the number nearest to `num / den` units; of two equally near ones the even code. -/
def codeOfUnits (num den : Nat) : Nat :=
  let whole := num / den
  if whole < Nat.pow 2 53 then roundHalfEven num den
  else
    let shift := whole.log2 - 52
    shift * binadeSize + roundHalfEven num (den * Nat.pow 2 shift)

/-- The number of the given sign nearest to `num / den` units. -/
def ofUnits (negative : Bool) (num den : Nat) : Binary64 := ofCode negative (codeOfUnits num den)

/-- The number nearest to an integer. -/
def ofInt (n : Int) : Binary64 := ofUnits (decide (n < 0)) (n.natAbs * unitsPerOne) 1

/-- The integer that a finite number stands for, if it is one. -/
def whole? (x : Binary64) : Option Int :=
  if x.isFinite ∧ x.magnitude % unitsPerOne = 0 then some (x.units / unitsPerOne) else none

/-- The number with the opposite sign. -/
def neg (x : Binary64) : Binary64 := ⟨!x.negative, x.code, x.code_le⟩

/-- Where a number stands on the line of all defined ones; the two zeros stand together. -/
def position (x : Binary64) : Int := if x.negative then -(x.code : Int) else x.code

/-- Strict order of the values; the two zeros are equal. -/
def less (x y : Binary64) : Bool :=
  !x.isUndefined && !y.isUndefined && decide (x.position < y.position)

/-- Order of the values; the two zeros are equal. -/
def atMost (x y : Binary64) : Bool :=
  !x.isUndefined && !y.isUndefined && decide (x.position ≤ y.position)

/-- The number nearest to the sum. Opposite infinities have none. -/
def add (x y : Binary64) : Binary64 :=
  if x.isUndefined || y.isUndefined then undefined
  else if x.isFinite then
    if y.isFinite then
      let s := x.units + y.units
      if s = 0 then ⟨x.negative && y.negative, 0, Nat.zero_le _⟩
      else ofUnits (decide (s < 0)) s.natAbs 1
    else y
  else if y.isFinite || x.negative == y.negative then x
  else undefined

/-- The sum of numbers from left to right, starting from zero. -/
def sum (xs : List Binary64) : Binary64 := xs.foldl add zero

/-- The number nearest to the product. Zero and infinity have none. -/
def mul (x y : Binary64) : Binary64 :=
  let negative := x.negative != y.negative
  if x.isUndefined || y.isUndefined then undefined
  else if x.isFinite && y.isFinite then ofUnits negative (x.magnitude * y.magnitude) unitsPerOne
  else if x.code = 0 || y.code = 0 then undefined
  else infinity negative

/-- The number nearest to the quotient. A number over zero is infinite; two zeros and two infinities
have none. -/
def div (x y : Binary64) : Binary64 :=
  let negative := x.negative != y.negative
  if x.isUndefined || y.isUndefined then undefined
  else if y.isFinite then
    if y.code = 0 then (if x.code = 0 then undefined else infinity negative)
    else if x.isFinite then ofUnits negative (x.magnitude * unitsPerOne) y.magnitude
    else infinity negative
  else if x.isFinite then ⟨negative, 0, Nat.zero_le _⟩
  else undefined

/-- The quotient of two naturals, rounded to nearest. -/
def ofRatio (num den : Nat) : Binary64 := (ofInt num).div (ofInt den)

end Binary64

end RuleDiagram
