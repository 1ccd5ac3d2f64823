import RuleDiagram.Number.Binary64

/-!
# Square roots

The square root of a binary floating-point number, rounded to nearest. It is taken of a natural with
enough digits that the whole part of the root and whether there is more to it settle the rounding.

## Main definitions

* `rootFloor`: the whole part of the square root of a natural
* `Binary64.sqrt`
-/

namespace RuleDiagram

/-- Improves an upper estimate of the square root of a natural, for at most the given number of
steps. -/
def refineRoot (n : Nat) : Nat → Nat → Nat
  | 0, estimate => estimate
  | steps + 1, estimate =>
    let next := (estimate + n / estimate) / 2
    if next < estimate then refineRoot n steps next else estimate

/-- The whole part of the square root of a natural. -/
def rootFloor (n : Nat) : Nat := refineRoot n (n.log2 + 2) (Nat.pow 2 (n.log2 / 2 + 1))

namespace Binary64

/-- The difference of two numbers. -/
def sub (x y : Binary64) : Binary64 := x.add y.neg

/-- The number nearest to the square root. A negative number has none. -/
def sqrt (x : Binary64) : Binary64 :=
  if x.code = 0 then x
  else if x.negative then undefined
  else if !x.isFinite then x
  else
    let m := x.magnitude
    let shift := 2 * ((128 - m.log2) / 2)
    let drop := 2 * ((m.log2 - 256) / 2)
    let scaled := m * Nat.pow 2 shift / Nat.pow 2 drop
    let root := rootFloor scaled
    let exact := decide (root * root * Nat.pow 2 drop = m * Nat.pow 2 shift)
    let sticky := if exact then 0 else 1
    ofUnits false ((2 * root + sticky) * Nat.pow 2 (537 + drop / 2)) (Nat.pow 2 (shift / 2 + 1))

end Binary64

end RuleDiagram
