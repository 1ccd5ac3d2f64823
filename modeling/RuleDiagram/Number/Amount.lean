import RuleDiagram.Number.Binary64

/-!
# Amounts

An amount is a whole number or a binary floating-point number. Whole numbers stay whole as long as
nothing else is mixed with them.

## Main definitions

* `Amount`, `Amount.real?`: amounts, and the floating-point number nearest to one
* `Amount.add?`, `Amount.divided?`, `Amount.less`: arithmetic and order
-/

namespace RuleDiagram

/-- A whole number or a floating-point number. -/
inductive Amount where
  | whole (n : Int)
  | float (x : Binary64)
deriving DecidableEq

/-- The number nearest to a quotient of an integer by a natural. -/
def Binary64.ofQuotient (num : Int) (den : Nat) : Binary64 :=
  if den = 0 then infinity (decide (num < 0))
  else ofUnits (decide (num < 0)) (num.natAbs * unitsPerOne) den

namespace Amount

/-- The floating-point number nearest to an amount; there is none for whole numbers beyond the
finite ones. -/
def real? : Amount → Option Binary64
  | whole n =>
    let x := Binary64.ofInt n
    if x.isFinite then some x else none
  | float x => some x

/-- The sum of two amounts: whole if both are. -/
def add? : Amount → Amount → Option Amount
  | whole m, whole n => some (whole (m + n))
  | a, b => do return float ((← a.real?).add (← b.real?))

/-- The amount divided by a positive natural. -/
def divided? : Amount → Nat → Option Binary64
  | whole m, n =>
    let x := Binary64.ofQuotient m n
    if x.isFinite then some x else none
  | float x, n => some (x.div (.ofInt n))

/-- Strict order of the exact values. -/
def less : Amount → Amount → Bool
  | whole m, whole n => decide (m < n)
  | float x, float y => x.less y
  | whole m, float y =>
    if y.isFinite then decide (m * unitsPerOne < y.units) else !y.isUndefined && !y.negative
  | float x, whole n =>
    if x.isFinite then decide (x.units < n * unitsPerOne) else !x.isUndefined && x.negative

/-- The least integer that is not below an amount. -/
def ceiling : Amount → Int
  | whole n => n
  | float x => -(-x.units / unitsPerOne)

/-- The sum of amounts from left to right, starting from the whole zero. -/
def sum? (amounts : List Amount) : Option Amount := amounts.foldlM add? (whole 0)

end Amount

end RuleDiagram
