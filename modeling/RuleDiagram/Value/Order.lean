import RuleDiagram.Number.Amount
import RuleDiagram.Value

/-!
# The order of values

Numbers are ordered by size and texts by their code points; between other values there is no order.

## Main definitions

* `Value.integer?`, `Value.amount?`: the number that a value is
* `Value.less?`, `Value.arrange?`: the order of values, as far as they have one
-/

namespace RuleDiagram

namespace Value

/-- The integer that a value is, truth values counting as zero and one. -/
def integer? : Value → Option Int
  | int n => some n
  | bool b => some (ofTruth b)
  | _ => none

/-- The amount that a value is, truth values counting as zero and one. -/
def amount? : Value → Option Amount
  | int n => some (.whole n)
  | bool b => some (.whole (ofTruth b))
  | float x => some (.float x)
  | _ => none

/-- The text that a value is. -/
def text? : Value → Option String
  | text s => some s
  | _ => none

/-- A value as it appears within other text: texts stand for themselves. -/
def shown : Value → String
  | text s => s
  | v => v.described

/-- Strict order: numbers by size, texts by code points. No other two values have one. -/
def less? (v w : Value) : Option Bool :=
  match v.amount?, w.amount?, v, w with
  | some a, some b, _, _ => some (a.less b)
  | _, _, text s, text t => some (decide (s < t))
  | _, _, _, _ => none

/-- Elements in the order of their keys, if each has one. -/
def arrangeBy {α κ : Type} (key? : α → Option κ) (less : κ → κ → Bool) (xs : List α) :
    Option (List α) := do
  let keyed ← xs.mapM fun x => do return (← key? x, x)
  return (keyed.mergeSort fun a b => !less b.1 a.1).map Prod.snd

/-- Elements in the order of the values that go with them. Several values of which two have no order
cannot be arranged. -/
def arrange? {α : Type} (value : α → Value) (xs : List α) : Option (List α) :=
  if xs.length ≤ 1 then some xs
  else
    (arrangeBy (fun x => (value x).amount?) Amount.less xs).or
      (arrangeBy (fun x => (value x).text?) (fun s t => decide (s < t)) xs)

end Value

end RuleDiagram
